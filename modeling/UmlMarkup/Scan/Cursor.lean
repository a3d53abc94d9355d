import UmlMarkup.Scan.Context
import UmlMarkup.Text.Search
import UmlMarkup.Token

/-!
# Cursors

A cursor moves over a line from left to right and notes the tokens that it has read. It knows
its position twice: in bytes, by which the text of the line is cut, and as a column, which
counts characters and is what the tokens are told in. Both are counted up as the cursor moves.
That they agree, and that the cursor always stands between two characters and within the line,
is a part of what a cursor is (`Cursor.pos_eq`, `Cursor.column_le`): it cannot be moved anywhere
else.

However a cursor is moved – over so many bytes, past a marker, as long as the characters are of
some kind – it skips a number of characters (`Cursor.skip`), and each way to move it has one
equation here that says how many. A token is noted where the cursor has moved since the token
began (`Cursor.emit`).
-/

namespace UmlMarkup

/-- **A cursor in a line**, with what it has read so far. -/
@[ext] structure Cursor where
  line : List Char
  /-- The number of bytes before the cursor. -/
  pos : Nat
  /-- The number of characters before the cursor. -/
  column : Nat
  /-- The tokens that were read. -/
  tokens : List Token
  state : ScanState
  header : NoteHeader
  /-- The rest of the line is plain text. -/
  freeText : Bool
  pos_eq : bytesTo line column = pos
  column_le : column ≤ line.length

namespace Cursor

/-- The cursor at the start of a line. -/
def start (state : ScanState) (line : List Char) : Cursor where
  line := line
  pos := 0
  column := 0
  tokens := []
  state := state
  header := .absent
  freeText := false
  pos_eq := rfl
  column_le := Nat.zero_le _

/-- The text from the cursor on. -/
def rest (c : Cursor) : List Char := dropBytes c.pos c.line

/-- Whether the cursor stands at the end of the line. -/
def atEnd (c : Cursor) : Bool := byteLength c.line ≤ c.pos

/-- The character at the cursor. At the end of the line this is NUL, which no rule looks for. -/
def peek (c : Cursor) : Char := c.rest.headD '\x00'

/-- The character behind the one at the cursor. -/
def peekNext (c : Cursor) : Char := (c.rest.drop 1).headD '\x00'

/-- What is known where the cursor stands. -/
def context (c : Cursor) : Context := ⟨c.state, c.header, c.freeText, c.tokens.isEmpty⟩

@[simp] theorem state_context (c : Cursor) : c.context.state = c.state := rfl

@[simp] theorem freeText_context (c : Cursor) : c.context.freeText = c.freeText := rfl

@[simp] theorem atStart_context (c : Cursor) : c.context.atStart = c.tokens.isEmpty := rfl

/-- The cursor with what is known there changed. Whether there is a token before it is not for a
context to say. -/
def withContext (ctx : Context) (c : Cursor) : Cursor :=
  { c with state := ctx.state, header := ctx.header, freeText := ctx.freeText }

theorem rest_eq (c : Cursor) : c.rest = c.line.drop c.column := by
  rw [rest, ← c.pos_eq, dropBytes_bytesTo c.column_le]

theorem length_rest (c : Cursor) : c.rest.length = c.line.length - c.column := by
  rw [rest_eq, List.length_drop]

/-- The line ends where nothing is left of it. -/
@[simp] theorem atEnd_iff {c : Cursor} : c.atEnd = true ↔ c.rest = [] := by
  rw [atEnd, decide_eq_true_iff, ← c.pos_eq, ← bytesTo_length,
    bytesTo_le_iff (Nat.le_refl _) c.column_le, rest_eq, List.drop_eq_nil_iff]

@[simp] theorem atEnd_eq_false_iff {c : Cursor} : c.atEnd = false ↔ c.rest ≠ [] := by
  rw [← Bool.not_eq_true, atEnd_iff]

/-! ## Moving -/

/-- The cursor `n` characters further on, as far as the line reaches. -/
def skip (n : Nat) (c : Cursor) : Cursor :=
  { c with
    pos := c.pos + bytesTo c.rest n
    column := c.column + min n c.rest.length
    pos_eq := by rw [bytesTo_add, c.pos_eq, ← c.rest_eq, bytesTo_min_length]
    column_le := by
      have := c.column_le
      have := c.length_rest
      omega }

/-- The cursor one character further on. -/
def advance (c : Cursor) : Cursor := c.skip 1

/-- The cursor `n` bytes further on. -/
def advanceBy (n : Nat) (c : Cursor) : Cursor := c.skip (charsWithin n c.rest)

/-- The cursor at the end of the line. -/
def advanceToEnd (c : Cursor) : Cursor := c.advanceBy (byteLength c.line - c.pos)

/-- The cursor behind the next occurrence of a marker, which must not be empty. -/
def advancePast? (marker : List Char) (c : Cursor) : Option Cursor :=
  (pastBytes? marker c.rest).map fun n => c.advanceBy n

@[simp] theorem tokens_skip (n : Nat) (c : Cursor) : (c.skip n).tokens = c.tokens := rfl

@[simp] theorem column_skip (n : Nat) (c : Cursor) :
    (c.skip n).column = c.column + min n c.rest.length := rfl

@[simp] theorem context_skip (n : Nat) (c : Cursor) : (c.skip n).context = c.context := rfl

@[simp] theorem rest_skip (n : Nat) (c : Cursor) : (c.skip n).rest = c.rest.drop n := by
  rw [rest_eq, skip]
  dsimp only
  rw [← List.drop_drop, ← c.rest_eq]
  exact List.drop_eq_drop_min.symm

@[simp] theorem skip_zero (c : Cursor) : c.skip 0 = c := by
  ext <;> simp [skip]

@[simp] theorem skip_skip (m n : Nat) (c : Cursor) : (c.skip m).skip n = c.skip (m + n) := by
  have hcolumn : c.column + min m c.rest.length + min n (c.rest.drop m).length
      = c.column + min (m + n) c.rest.length := by
    rw [List.length_drop]
    omega
  ext1 <;> try rfl
  · show c.pos + bytesTo c.rest m + bytesTo (c.skip m).rest n = c.pos + bytesTo c.rest (m + n)
    simp [bytesTo_add, Nat.add_assoc]
  · show c.column + min m c.rest.length + min n (c.skip m).rest.length = _
    rw [rest_skip, hcolumn]
    rfl

@[simp] theorem advanceBy_bytesTo {c : Cursor} {n : Nat} (h : n ≤ c.rest.length) :
    c.advanceBy (bytesTo c.rest n) = c.skip n := by
  simp [advanceBy, h]

@[simp] theorem advanceToEnd_eq (c : Cursor) : c.advanceToEnd = c.skip c.rest.length := by
  have hbytes : byteLength c.line - c.pos = bytesTo c.rest c.rest.length := by
    have hline := bytesTo_add c.line c.column c.rest.length
    rw [c.pos_eq, ← c.rest_eq, c.length_rest, Nat.add_sub_cancel' c.column_le, bytesTo_length,
      ← c.length_rest] at hline
    rw [hline, Nat.add_sub_cancel_left]
  rw [advanceToEnd, hbytes, advanceBy_bytesTo (Nat.le_refl _)]

@[simp] theorem advancePast?_eq (marker : List Char) (c : Cursor) :
    c.advancePast? marker = (past? marker c.rest).map fun n => c.skip n := by
  rw [advancePast?, pastBytes?_eq, Option.map_map]
  cases hn : past? marker c.rest with
  | none => rfl
  | some n => exact congrArg some (advanceBy_bytesTo (past?_bounds hn).2)

/-! ## Moving on as long as -/

/-- Before the end of the line the cursor can be moved. -/
theorem length_rest_advance {c : Cursor} (h : c.atEnd = false) :
    c.advance.rest.length < c.rest.length := by
  have hpos := List.length_pos_iff.2 (atEnd_eq_false_iff.1 h)
  rw [advance, rest_skip, List.length_drop]
  omega

/-- The cursor moved on, character by character, as long as `goesOn` says so. -/
def moveWhile (goesOn : Cursor → Bool) (c : Cursor) : Cursor :=
  if _h : c.atEnd = false ∧ goesOn c = true then c.advance.moveWhile goesOn else c
termination_by c.rest.length
decreasing_by exact length_rest_advance _h.1

/-- The cursor moved over the characters of some kind. -/
def advanceWhile (p : Char → Bool) (c : Cursor) : Cursor := c.moveWhile fun c => p c.peek

/-- **Moving on as long as** something holds skips as many characters as can be counted from
the text that is left. -/
theorem moveWhile_eq {goesOn : Cursor → Bool} (count : List Char → Nat) (c : Cursor)
    (hnil : count [] = 0)
    (hcons : ∀ n x rest, (c.skip n).rest = x :: rest →
      count (x :: rest) = if goesOn (c.skip n) then count rest + 1 else 0) :
    c.moveWhile goesOn = c.skip (count c.rest) := by
  fun_induction moveWhile goesOn c with
  | case1 c h ih =>
    cases hrest : c.rest with
    | nil => simp [atEnd_iff.2 hrest] at h
    | cons x rest =>
      have hx := hcons 0 x rest (by simpa using hrest)
      have hnext : c.advance.rest = rest := by simp [advance, hrest]
      rw [skip_zero, if_pos h.2] at hx
      rw [ih fun n y more hy => ?_, hnext, hx, advance, skip_skip, Nat.add_comm]
      simpa [advance, Nat.add_comm] using hcons (1 + n) y more (by simpa [advance] using hy)
  | case2 c h =>
    cases hrest : c.rest with
    | nil => simp [hnil]
    | cons x rest =>
      have hx := hcons 0 x rest (by simpa using hrest)
      have hat : c.atEnd = false := by simp [hrest]
      have hstop : ¬ goesOn c = true := fun hgo => h ⟨hat, hgo⟩
      rw [skip_zero, if_neg hstop] at hx
      simp [hx]

theorem advanceWhile_eq (p : Char → Bool) (c : Cursor) :
    c.advanceWhile p = c.skip (c.rest.takeWhile p).length := by
  refine moveWhile_eq (fun rest => (rest.takeWhile p).length) c rfl fun n x rest h => ?_
  rw [peek, h, List.headD_cons, List.takeWhile_cons]
  split <;> rfl

/-! ## Noting tokens -/

/-- Notes the token from the column `start` to the cursor, unless it would be empty. -/
def emit (kind : Kind) (start : Nat) (c : Cursor) : Cursor :=
  { c with
    tokens := if start < c.column then c.tokens ++ [⟨kind, start, c.column⟩] else c.tokens }

/-- The cursor with what is known there changed in some way. -/
def change (f : Context → Context) (c : Cursor) : Cursor := c.withContext (f c.context)

/-- The cursor with its state changed. -/
def withState (s : ScanState) (c : Cursor) : Cursor := { c with state := s }

/-- Noting a token leaves all else as it is, and what looks at all else only may come before. -/
theorem change_emit {f : Context → Context}
    (hf : ∀ ctx atStart, f { ctx with atStart := atStart } = { f ctx with atStart := atStart })
    (kind : Kind) (start : Nat) (c : Cursor) :
    (c.emit kind start).change f = (c.change f).emit kind start := by
  show (c.emit kind start).withContext
    (f { c.context with atStart := (c.emit kind start).tokens.isEmpty }) = _
  rw [hf]
  rfl

end Cursor

end UmlMarkup
