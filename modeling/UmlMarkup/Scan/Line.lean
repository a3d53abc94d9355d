import UmlMarkup.Scan.Step

/-!
# Scanning a line

A line is scanned from the state that the line before left. Its indentation is
set aside and belongs to no token; from there on step follows step to the end of
the line, so that every character lands in exactly one lexeme. A scan cannot
fail: whatever is left open stays open in the state that is handed on.

`ScannedLine` keeps the pieces of the line itself, from which the tokens with
their columns are laid out. `Dialect.text_scanLine` says that no piece is lost:
the indentation and the lexemes are the line again. An `Entry` keeps the tokens
only.
-/

namespace UmlMarkup

/-- A line in pieces, and the state it hands to the next. -/
structure ScannedLine where
  /-- The blanks at the start, which belong to no lexeme. -/
  indent : List Char
  lexemes : List Lexeme
  stateAfter : ScanState
  deriving DecidableEq, Repr

namespace ScannedLine

/-- The tokens of the line. -/
def tokens (l : ScannedLine) : List Token := layout l.indent.length l.lexemes

/-- The text of the line, put together from its pieces. -/
def text (l : ScannedLine) : List Char := l.indent ++ l.lexemes.flatMap Lexeme.text

end ScannedLine

/-- The scan of one line as a document keeps it. -/
structure Entry where
  tokens : List Token
  stateAfter : ScanState
  deriving DecidableEq, Repr

/-- The entry of a scanned line. -/
def ScannedLine.entry (l : ScannedLine) : Entry := ⟨l.tokens, l.stateAfter⟩

namespace Dialect

/-- Reads the rest of a line, token by token, and ends with the context at the
end of the line. -/
def scanRest (d : Dialect) (ctx : Context) (rest : List Char) : List Lexeme × Context :=
  if _h : rest = [] then ([], ctx)
  else
    let s := d.step ctx rest
    let (lexemes, last) := d.scanRest { s.next with atStart := false } (rest.drop s.length)
    (⟨s.kind, rest.take s.length⟩ :: lexemes, last)
termination_by rest.length
decreasing_by
  have hs : Fits (d.step ctx rest).length rest := step_fits _h
  simp only [List.length_drop]
  exact Nat.sub_lt (Nat.lt_of_lt_of_le hs.1 hs.2) hs.1

/-- At the end of the line nothing is left to read. -/
@[simp] theorem scanRest_nil (d : Dialect) (ctx : Context) : d.scanRest ctx [] = ([], ctx) := by
  rw [scanRest, dif_pos rfl]

/-- Scans a line that starts in the given state. -/
def scanLine (d : Dialect) (state : ScanState) (line : List Char) : ScannedLine :=
  let (lexemes, last) := d.scanRest { state := state } (line.dropWhile isBlank)
  ⟨line.takeWhile isBlank, lexemes, last.settle.state⟩

/-- Reading a line loses nothing and keeps the order. -/
@[simp] theorem flatMap_text_scanRest (d : Dialect) (ctx : Context) (rest : List Char) :
    (d.scanRest ctx rest).1.flatMap Lexeme.text = rest := by
  fun_induction scanRest d ctx rest with
  | case1 ctx => rfl
  | case2 ctx rest h s lexemes last heq ih =>
    rw [heq] at ih
    simp only [List.flatMap_cons, ih, List.take_append_drop]

/-- **No piece of a line is lost.** -/
@[simp] theorem text_scanLine (d : Dialect) (state : ScanState) (line : List Char) :
    (d.scanLine state line).text = line := by
  simp only [scanLine, ScannedLine.text, flatMap_text_scanRest]
  exact List.takeWhile_append_dropWhile

end Dialect

end UmlMarkup
