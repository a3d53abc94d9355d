import UmlMarkup.Proofs.Scan.LineBreak
import UmlMarkup.Proofs.Scan.Threading

/-!
# Indentation only shifts columns

The blanks in front of a line belong to none of its tokens and to none of its choices. That
something stands at the start of a line – the keyword of a construct, the end of a note – is
told by there being no token before it (`Context.atStart`), never by its column. So a line
that is indented further is read as it was, token by token, and its tokens stand as many
columns further on as blanks were added (`scanLine_append_of_blank`). How many bytes a blank
takes is immaterial, since columns count characters.

Lines see of each other only the state they hand on, which the blanks leave alone. So a
whole document may be indented anew, each line by blanks of its own
(`entriesFrom_zipWith_append`).
-/

namespace UmlMarkup

/-- The line with more blanks in front of it. -/
def ScannedLine.indentBy (w : List Char) (l : ScannedLine) : ScannedLine :=
  { l with indent := w ++ l.indent }

/-- The tokens of a line that is indented further are shifted. -/
@[simp] theorem ScannedLine.tokens_indentBy (w : List Char) (l : ScannedLine) :
    (l.indentBy w).tokens = l.tokens.map (Token.shift w.length) := by
  rw [tokens, indentBy, List.length_append, Nat.add_comm, layout_add, tokens]

/-- The entry of a line that stands that many columns further on. -/
def Entry.shift (n : Nat) (e : Entry) : Entry := ⟨e.tokens.map (Token.shift n), e.stateAfter⟩

@[simp] theorem ScannedLine.entry_indentBy (w : List Char) (l : ScannedLine) :
    (l.indentBy w).entry = l.entry.shift w.length :=
  congrArg (Entry.mk · l.stateAfter) (tokens_indentBy w l)

namespace Dialect

variable (d : Dialect)

/-- **A line that is indented further is read as it was.** -/
theorem scanLine_append_of_blank (s : ScanState) {w : List Char} (hw : Blank w)
    (line : List Char) : d.scanLine s (w ++ line) = (d.scanLine s line).indentBy w := by
  unfold scanLine
  rw [List.takeWhile_append_of_pos hw, List.dropWhile_append_of_pos hw]
  rfl

/-- **So are lines, each with an indentation of its own.** -/
theorem entriesFrom_zipWith_append (s : ScanState) {ws : List (List Char)}
    (hws : ∀ w ∈ ws, Blank w) (lines : List (List Char)) :
    d.entriesFrom s (List.zipWith (· ++ ·) ws lines)
      = List.zipWith (fun w e => e.shift w.length) ws (d.entriesFrom s lines) := by
  induction ws generalizing s lines with
  | nil => rfl
  | cons w ws ih =>
    cases lines with
    | nil => rfl
    | cons line lines =>
      obtain ⟨hw, hws⟩ := List.forall_mem_cons.1 hws
      -- the next line starts in the same state
      rw [List.zipWith_cons_cons, entriesFrom_cons, entriesFrom_cons, List.zipWith_cons_cons,
        scanLine_append_of_blank d s hw, ScannedLine.entry_indentBy]
      exact congrArg _ (ih _ hws lines)

/-- **Indentation only shifts columns**, whatever the dialect, whatever is open and whatever
the line is. Blanks in front of it leave the state that the cursor hands on as it is and put the
tokens it notes as many columns further on; and when each line of a document is indented by
blanks of its own, the same holds of every line. What the cursor makes of a line is laid out from
the pieces of the line. -/
theorem indentation_shifts_columns :
    (∀ (s : ScanState) (w line : List Char), Blank w →
      (d.scanEntry s (w ++ line)).stateAfter = (d.scanEntry s line).stateAfter
      ∧ (d.scanEntry s (w ++ line)).tokens
        = (d.scanEntry s line).tokens.map (Token.shift w.length))
    ∧ (∀ (s : ScanState) (ws lines : List (List Char)), (∀ w ∈ ws, Blank w) →
      d.entriesFrom s (List.zipWith (· ++ ·) ws lines)
        = List.zipWith (fun w e => e.shift w.length) ws (d.entriesFrom s lines))
    ∧ ∀ (s : ScanState) (line : List Char),
      d.scanEntry s line = (d.scanLine s line).entry := by
  refine ⟨fun s w line hw => ?_, fun s ws lines hws => d.entriesFrom_zipWith_append s hws lines,
    d.scanEntry_eq⟩
  rw [scanEntry_eq, scanEntry_eq, scanLine_append_of_blank d s hw, ScannedLine.entry_indentBy]
  exact ⟨rfl, rfl⟩

/-- The end of a note behind a tab and a wide space, and a note of two lines each indented in
its own way. -/
theorem indentation_shifts_columns_of_note :
    Blank ['\t', '\u3000'] ∧ Blank [' ']
    ∧ (sequence.scanEntry ⟨[.note]⟩ (['\t', '\u3000'] ++ "end note".toList)).stateAfter
      = (sequence.scanEntry ⟨[.note]⟩ "end note".toList).stateAfter
    ∧ (sequence.scanEntry ⟨[.note]⟩ (['\t', '\u3000'] ++ "end note".toList)).tokens
      = (sequence.scanEntry ⟨[.note]⟩ "end note".toList).tokens.map (Token.shift 2)
    ∧ sequence.entriesFrom .initial
        [[' '] ++ "note over A".toList, ['\t', '\u3000'] ++ "end note".toList]
      = List.zipWith (fun w e => e.shift w.length) [[' '], ['\t', '\u3000']]
        (sequence.entriesFrom .initial ["note over A".toList, "end note".toList]) := by
  have hw : Blank ['\t', '\u3000'] := by decide
  have hspace : Blank [' '] := by decide
  have hline := (indentation_shifts_columns sequence).1 ⟨[.note]⟩ _ "end note".toList hw
  have hlines := (indentation_shifts_columns sequence).2.1 .initial [[' '], ['\t', '\u3000']]
    ["note over A".toList, "end note".toList]
    (List.forall_mem_cons.2 ⟨hspace, List.forall_mem_cons.2 ⟨hw, List.forall_mem_nil _⟩⟩)
  exact ⟨hw, hspace, hline.1, hline.2, hlines⟩

end Dialect

end UmlMarkup
