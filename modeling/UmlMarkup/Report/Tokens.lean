import UmlMarkup.Document
import UmlMarkup.Registry
import UmlMarkup.Report.Unterminated
import UmlMarkup.Text.Quoted

/-!
# Reports in columns

A report sets its fields in columns, a text at the left of its column and a
number at the right. A field that is wider than its column is not cut.

The list of dialects has one row for each registered dialect, in the order of
the registry: its name, its label, its content identifier and its suffixes, each
with a dot before it.

The token report shows a text line by line: the line with its number, below it
one row for each token that is more than the space between others, and a last
row for the state that the line leaves open.
-/

namespace UmlMarkup

/-- A text at the left of a column of `width` characters. -/
def flushLeft (width : Nat) (text : String) : String :=
  text.pushn ' ' (width - text.length)

/-- A number at the right of a column of `width` characters. -/
def flushRight (width n : Nat) : String :=
  "".pushn ' ' (width - (toString n).length) ++ toString n

namespace Report

/-! ## Dialects -/

/-- The row of a dialect. -/
def dialectRow (d : Dialect) : String :=
  flushLeft 18 d.name ++ " " ++ flushLeft 26 d.label ++ " " ++ flushLeft 28 d.contentId ++ " "
    ++ " ".intercalate (d.suffixes.map ("." ++ ·)) ++ "\n"

/-- The dialects of a registry. -/
def dialects (r : Registry) : String := String.join (r.dialects.map dialectRow)

/-! ## Tokens -/

/-- The row of a token that covers `text`. -/
def tokenRow (t : Token) (text : List Char) : String :=
  "     " ++ flushRight 3 t.span.start ++ ".." ++ flushLeft 3 (toString t.span.stop) ++ " "
    ++ flushLeft 10 t.kind.name ++ " " ++ String.ofList (quoted text) ++ "\n"

/-- The rows of a line, the first line having the number 1. -/
def lineRows (d : Dialect) (unit number : Nat) (l : ScannedLine) : String :=
  let rows := (l.lexemes.zip l.tokens).filterMap fun p =>
    if p.1.isSpacing then none else some (tokenRow p.2 p.1.text)
  flushRight 4 number ++ " | " ++ String.ofList l.text ++ "\n" ++ String.join rows
    ++ stateRow d unit l.stateAfter

/-- The tokens of a text and the states its lines leave. -/
def tokens (d : Dialect) (unit : Nat) (text : List Char) : String :=
  String.join ((d.scanText text).mapIdx fun k l => lineRows d unit (k + 1) l)

end Report

end UmlMarkup
