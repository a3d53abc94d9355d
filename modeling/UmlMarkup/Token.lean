import UmlMarkup.Text

/-!
# Tokens

A scanned line is a sequence of **lexemes**, pieces of its text with the kind
of each, in the order in which they stand. Laid out from a column, the lexemes
become **tokens**: kinds with the columns they cover. Columns count characters,
from zero, and the end is exclusive.

Laying out loses nothing. The tokens of a layout are adjacent by construction,
each starting where the one before ends, and the text of a token in its line is
the lexeme it came from.
-/

namespace UmlMarkup

/-- The display category of a piece of text. -/
inductive Kind where
  | comment
  | string
  | keyword
  /-- Diagram markers and elements named in place. -/
  | definition
  | number
  /-- Arrows, relations and colors. -/
  | atom
  /-- Dividers and separators. -/
  | operator
  | unstyled
  deriving DecidableEq, Repr, Inhabited

namespace Kind

/-- The name of a kind in reports. -/
def name : Kind → String
  | comment => "Comment"
  | string => "String"
  | keyword => "Keyword"
  | definition => "Definition"
  | number => "Number"
  | atom => "Atom"
  | operator => "Operator"
  | unstyled => "Unstyled"

/-- The style under which an editor shows a kind, if any. -/
def style? : Kind → Option String
  | comment => some "comment"
  | string => some "string"
  | keyword => some "keyword"
  | definition => some "def"
  | number => some "number"
  | atom => some "atom"
  | operator => some "operator"
  | unstyled => none

end Kind

/-- A range of columns of one line, its end exclusive. -/
structure Span where
  start : Nat
  stop : Nat
  deriving DecidableEq, Repr

namespace Span

/-- The number of columns covered. -/
def length (s : Span) : Nat := s.stop - s.start

/-- Whether no column is covered. -/
def isEmpty (s : Span) : Bool := s.start == s.stop

end Span

/-- A classified range of one line. -/
structure Token where
  kind : Kind
  span : Span
  deriving DecidableEq, Repr

/-- The text a token covers in `line`, as far as the line reaches. -/
def Token.text (t : Token) (line : List Char) : List Char :=
  (line.take t.span.stop).drop t.span.start

/-- A classified piece of text. -/
structure Lexeme where
  kind : Kind
  text : List Char
  deriving DecidableEq, Repr

/-- Whether a piece of text is only the space between others: unstyled and
blank throughout. -/
def Lexeme.isSpacing (l : Lexeme) : Bool := l.kind == .unstyled && l.text.all isBlank

/-- The tokens of adjacent lexemes, the first of which starts at `column`. -/
def layout (column : Nat) : List Lexeme → List Token
  | [] => []
  | l :: rest =>
    ⟨l.kind, column, column + l.text.length⟩ :: layout (column + l.text.length) rest

@[simp] theorem layout_nil (column : Nat) : layout column [] = [] := rfl

@[simp] theorem layout_cons (column : Nat) (l : Lexeme) (rest : List Lexeme) :
    layout column (l :: rest)
      = ⟨l.kind, column, column + l.text.length⟩ :: layout (column + l.text.length) rest := rfl

@[simp] theorem layout_append (column : Nat) (ls ms : List Lexeme) :
    layout column (ls ++ ms)
      = layout column ls ++ layout (column + (ls.flatMap Lexeme.text).length) ms := by
  induction ls generalizing column with
  | nil => rfl
  | cons l rest ih => simp [ih, Nat.add_assoc]

@[simp] theorem length_layout (column : Nat) (ls : List Lexeme) :
    (layout column ls).length = ls.length := by
  induction ls generalizing column with
  | nil => rfl
  | cons l rest ih => simp [ih]

/-- Laying out keeps the kinds. -/
@[simp] theorem map_kind_layout (column : Nat) (ls : List Lexeme) :
    (layout column ls).map Token.kind = ls.map Lexeme.kind := by
  induction ls generalizing column with
  | nil => rfl
  | cons l rest ih => simp [ih]

/-- **Laying out keeps the texts.** In a line that holds the texts of the
lexemes one after the other from the first column on, every token covers the
text of its lexeme. -/
theorem map_text_layout (before : List Char) (ls : List Lexeme) (after : List Char) :
    (layout before.length ls).map
        (·.text (before ++ ls.flatMap Lexeme.text ++ after))
      = ls.map Lexeme.text := by
  induction ls generalizing before with
  | nil => rfl
  | cons l rest ih =>
    have h := ih (before ++ l.text)
    simp only [List.length_append, List.append_assoc] at h
    simp only [layout, List.map_cons, List.flatMap_cons, List.append_assoc, h]
    simp [Token.text, List.take_append]

/-- The token that many columns further on. -/
def Token.shift (n : Nat) (t : Token) : Token := ⟨t.kind, ⟨t.span.start + n, t.span.stop + n⟩⟩

theorem layout_add (column n : Nat) (ls : List Lexeme) :
    layout (column + n) ls = (layout column ls).map (Token.shift n) := by
  induction ls generalizing column with
  | nil => rfl
  | cons l rest ih => rw [layout_cons, Nat.add_right_comm, ih, layout_cons, List.map_cons]; rfl

end UmlMarkup
