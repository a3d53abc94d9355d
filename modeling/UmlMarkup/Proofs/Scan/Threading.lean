import UmlMarkup.Document

/-!
# The state threaded from line to line

Scanning lines one after the other is a fold: the only thing a line learns of
those before it is the state they leave. So the scan of a list of lines may be
cut anywhere. What stands after the cut is the scan of the remaining lines from
the state reached there (`drop_scanLines`), and gluing the two halves together
gives the whole again (`scanLines_append`).

`entriesFrom` is the same scan in the form in which a document keeps it.
-/

namespace UmlMarkup

@[simp] theorem ScannedLine.stateAfter_entry (l : ScannedLine) :
    l.entry.stateAfter = l.stateAfter := rfl

namespace Dialect

variable (d : Dialect)

/-- The state after the given lines, the first of which starts in `state`. -/
def stateAfter (state : ScanState) (lines : List (List Char)) : ScanState :=
  lines.foldl (fun s line => (d.scanLine s line).stateAfter) state

@[simp] theorem stateAfter_nil (state : ScanState) : d.stateAfter state [] = state := rfl

@[simp] theorem stateAfter_cons (state : ScanState) (line : List Char)
    (rest : List (List Char)) :
    d.stateAfter state (line :: rest)
      = d.stateAfter (d.scanLine state line).stateAfter rest := rfl

@[simp] theorem stateAfter_append (state : ScanState) (before after : List (List Char)) :
    d.stateAfter state (before ++ after)
      = d.stateAfter (d.stateAfter state before) after :=
  List.foldl_append

@[simp] theorem length_scanLines (state : ScanState) (lines : List (List Char)) :
    (d.scanLines state lines).length = lines.length := by
  induction lines generalizing state with
  | nil => rfl
  | cons line rest ih => simp [ih]

/-- The scanned lines are the lines. -/
@[simp] theorem map_text_scanLines (state : ScanState) (lines : List (List Char)) :
    (d.scanLines state lines).map ScannedLine.text = lines := by
  induction lines generalizing state with
  | nil => rfl
  | cons line rest ih => simp [ih]

/-- Cutting the lines cuts their scan. -/
@[simp] theorem scanLines_append (state : ScanState) (before after : List (List Char)) :
    d.scanLines state (before ++ after)
      = d.scanLines state before ++ d.scanLines (d.stateAfter state before) after := by
  induction before generalizing state with
  | nil => rfl
  | cons line rest ih => simp [ih]

@[simp] theorem take_scanLines (state : ScanState) (lines : List (List Char)) (n : Nat) :
    (d.scanLines state lines).take n = d.scanLines state (lines.take n) := by
  induction lines generalizing state n with
  | nil => simp
  | cons line rest ih =>
    cases n with
    | zero => rfl
    | succ n => simp [ih]

theorem drop_scanLines (state : ScanState) (lines : List (List Char)) (n : Nat) :
    (d.scanLines state lines).drop n
      = d.scanLines (d.stateAfter state (lines.take n)) (lines.drop n) := by
  induction lines generalizing state n with
  | nil => simp
  | cons line rest ih =>
    cases n with
    | zero => rfl
    | succ n => simp [ih]

/-- The scan of each line starts in the state that the lines before it leave. -/
@[simp] theorem getElem?_scanLines (state : ScanState) (lines : List (List Char)) (n : Nat) :
    (d.scanLines state lines)[n]?
      = lines[n]?.map (d.scanLine (d.stateAfter state (lines.take n))) := by
  induction lines generalizing state n with
  | nil => rfl
  | cons line rest ih =>
    cases n with
    | zero => rfl
    | succ n => simp [ih]

variable {d} in
/-- **What every line keeps, every document keeps.** A property of states that
holds at the start and that no line breaks holds after each line. -/
theorem stateAfter_of_mem_scanLines {P : ScanState → Prop}
    (hline : ∀ state line, P state → P (d.scanLine state line).stateAfter)
    {state : ScanState} (h : P state) {lines : List (List Char)} {l : ScannedLine}
    (hl : l ∈ d.scanLines state lines) : P l.stateAfter := by
  induction lines generalizing state with
  | nil => cases hl
  | cons line rest ih =>
    rcases List.mem_cons.1 hl with rfl | hl
    · exact hline state line h
    · exact ih (hline state line h) hl

/-! ## Entries -/

@[simp] theorem entriesFrom_nil (state : ScanState) : d.entriesFrom state [] = [] := rfl

@[simp] theorem entriesFrom_cons (state : ScanState) (line : List Char)
    (rest : List (List Char)) :
    d.entriesFrom state (line :: rest)
      = (d.scanLine state line).entry
          :: d.entriesFrom (d.scanLine state line).stateAfter rest := by
  rw [entriesFrom, scanEntry_eq]
  rfl

@[simp] theorem length_entriesFrom (state : ScanState) (lines : List (List Char)) :
    (d.entriesFrom state lines).length = lines.length := by
  simp [entriesFrom_eq]

@[simp] theorem entriesFrom_append (state : ScanState) (before after : List (List Char)) :
    d.entriesFrom state (before ++ after)
      = d.entriesFrom state before
          ++ d.entriesFrom (d.stateAfter state before) after := by
  simp [entriesFrom_eq]

@[simp] theorem take_entriesFrom (state : ScanState) (lines : List (List Char)) (n : Nat) :
    (d.entriesFrom state lines).take n = d.entriesFrom state (lines.take n) := by
  simp [entriesFrom_eq, ← List.map_take]

theorem drop_entriesFrom (state : ScanState) (lines : List (List Char)) (n : Nat) :
    (d.entriesFrom state lines).drop n
      = d.entriesFrom (d.stateAfter state (lines.take n)) (lines.drop n) := by
  rw [entriesFrom_eq, ← List.map_drop, drop_scanLines, entriesFrom_eq]

end Dialect

namespace Document

/-- A line of a document starts in the state that the lines before it leave. -/
theorem stateBefore_ofLines (d : Dialect) {lines : List (List Char)} {n : Nat}
    (hn : n ≤ lines.length) :
    (ofLines d lines).stateBefore n = d.stateAfter .initial (lines.take n) := by
  cases n with
  | zero => rfl
  | succ n =>
    have hlt : n < lines.length := hn
    simp only [stateBefore, ofLines, Dialect.entriesFrom_eq, List.getElem?_map,
      Dialect.getElem?_scanLines, List.getElem?_eq_getElem hlt, Option.map_some,
      Option.getD_some]
    rw [List.take_succ_eq_append_getElem hlt, Dialect.stateAfter_append]
    rfl

end Document

end UmlMarkup
