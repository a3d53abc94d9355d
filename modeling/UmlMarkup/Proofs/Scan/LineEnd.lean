import UmlMarkup.Proofs.Scan.Nesting
import UmlMarkup.Proofs.Text.Runs

/-!
# The state that a line hands on

Of all that a scan knows within a line only the stack is left at its end. `endState`
is that stack as a function of a position: of the context there, and of the text that is
left of the line. It is read from the front, one step after the other
(`endState_append`), until nothing can change it any more, as in free text
(`endState_of_freeText`), or a step has taken all that was left (`endState_of_length`).
Where the tokens matter too, `ReadAs` tells them along with that state, and is put together
in the same steps.

The indentation of a line has no part in it (`stateAfter_scanLine`).
-/

namespace UmlMarkup

/-- Nothing but blanks. -/
def Blank (text : List Char) : Prop := ∀ c ∈ text, isBlank c = true

instance : DecidablePred Blank := fun text =>
  List.decidableBAll (fun c => isBlank c = true) text

/-- The text starts with something else than a blank. -/
def Flush (text : List Char) : Prop := ∃ c, text.head? = some c ∧ isBlank c = false

instance : DecidablePred Flush
  | [] => .isFalse fun ⟨_, h, _⟩ => nomatch h
  | c :: _ =>
    decidable_of_iff (isBlank c = false)
      ⟨fun h => ⟨c, rfl, h⟩, fun ⟨_, hc, h⟩ => Option.some.inj hc ▸ h⟩

@[simp] theorem Flush.any_head? {text : List Char} (h : Flush text) :
    text.head?.any isBlank = false := by
  obtain ⟨c, hc, hblank⟩ := h
  rw [hc, Option.any_some, hblank]

theorem Flush.append {text : List Char} (h : Flush text) (tail : List Char) :
    Flush (text ++ tail) := by
  obtain ⟨c, hc, hblank⟩ := h
  exact ⟨c, by rw [List.head?_append, hc, Option.some_or], hblank⟩

theorem Flush.ne_nil {text : List Char} (h : Flush text) : text ≠ [] := by
  obtain ⟨c, hc, -⟩ := h
  rintro rfl
  cases hc

theorem blank_takeWhile (text : List Char) : Blank (text.takeWhile isBlank) :=
  List.all_eq_true.1 List.all_takeWhile

@[simp] theorem Flush.dropWhile {text : List Char} (h : Flush text) :
    text.dropWhile isBlank = text := by
  obtain ⟨c, hc, hblank⟩ := h
  obtain ⟨text, rfl⟩ := List.head?_eq_some_iff.1 hc
  exact List.dropWhile_cons_of_neg (by simp [hblank])

@[simp] theorem Flush.takeWhile {text : List Char} (h : Flush text) :
    text.takeWhile isBlank = [] := by
  obtain ⟨c, hc, hblank⟩ := h
  obtain ⟨text, rfl⟩ := List.head?_eq_some_iff.1 hc
  exact List.takeWhile_cons_of_neg (by simp [hblank])

/-- The blanks before a text that starts with something else are all there are. -/
@[simp] theorem Flush.dropWhile_append {gap text : List Char} (hgap : Blank gap) (h : Flush text) :
    (gap ++ text).dropWhile isBlank = text := by
  simp [h, List.dropWhile_append_of_pos hgap]

/-! ## The state that a line hands on -/

namespace Dialect

/-- The context behind the first token of a line, if that token was nothing
special. -/
def inLine (s : ScanState) : Context := { state := s, atStart := false }

/-- The context behind the keyword of a note. -/
def inNoteHeader (s : ScanState) : Context :=
  { state := s.enter .note, header := .plain, atStart := false }

variable {d : Dialect} {ctx : Context} {rest : List Char}

/-- The state that a line hands on, `rest` being what is left of it. -/
def endState (d : Dialect) (ctx : Context) (rest : List Char) : ScanState :=
  (d.scanRest ctx rest).2.settle.state

@[simp] theorem endState_nil (d : Dialect) (ctx : Context) :
    d.endState ctx [] = ctx.settle.state := by
  simp [endState]

theorem endState_of_ne_nil (hne : rest ≠ []) :
    d.endState ctx rest = d.endState (d.contextAfter ctx rest) (d.restAfter ctx rest) := by
  rw [endState, scanRest_of_ne_nil d ctx hne]
  rfl

/-- A step that reads exactly `u` leaves what comes behind it to decide. -/
theorem endState_append {u tail : List Char} {k : Kind} {c : Context} (hu : u ≠ [])
    (h : d.step ctx (u ++ tail) = ⟨k, u.length, c⟩) :
    d.endState ctx (u ++ tail) = d.endState { c with atStart := false } tail := by
  rw [endState, scanRest_append hu h]
  rfl

/-- A step that reads all that is left decides. -/
theorem endState_of_length {k : Kind} {c : Context} (hne : rest ≠ [])
    (h : d.step ctx rest = ⟨k, rest.length, c⟩) : d.endState ctx rest = c.settle.state := by
  rw [endState, scanRest_of_length hne h, Context.settle, Context.settle]
  split <;> rfl

/-- Free text changes nothing any more. -/
@[simp] theorem endState_of_freeText (h : ctx.freeText = true) (rest : List Char) :
    d.endState ctx rest = ctx.settle.state := by
  by_cases hne : rest = []
  · simp [hne]
  · exact endState_of_length hne (step_of_freeText h)

/-- Nor do blanks, however many stand in a row. -/
theorem endState_of_blank (hfree : ctx.freeText = false) {c : Char} (hc : isBlank c = true)
    (rest : List Char) :
    d.endState ctx (c :: rest)
      = d.endState { ctx with atStart := false } (rest.dropWhile isBlank) := by
  have htake : (c :: rest).takeWhile isBlank = c :: rest.takeWhile isBlank :=
    List.takeWhile_cons_of_pos hc
  have hsplit : c :: rest = (c :: rest.takeWhile isBlank) ++ rest.dropWhile isBlank := by
    rw [List.cons_append, List.takeWhile_append_dropWhile]
  have hstep : d.step ctx (c :: rest) = ⟨.unstyled, (c :: rest.takeWhile isBlank).length, ctx⟩ := by
    rw [step_of_blank hfree (show (c :: rest).head?.any isBlank = true from hc), blankStep, htake]
  rw [hsplit] at hstep ⊢
  exact endState_append (List.cons_ne_nil _ _) hstep

/-- Behind the first token of a line blanks at the front are immaterial. -/
@[simp] theorem endState_dropWhile (hfree : ctx.freeText = false) (hstart : ctx.atStart = false)
    (rest : List Char) : d.endState ctx (rest.dropWhile isBlank) = d.endState ctx rest := by
  obtain ⟨state, header, freeText, atStart⟩ := ctx
  cases hstart
  cases rest with
  | nil => rfl
  | cons c rest =>
    cases hc : isBlank c with
    | true => rw [List.dropWhile_cons_of_pos hc, endState_of_blank hfree hc]
    | false => rw [List.dropWhile_cons_of_neg (by rw [hc]; exact Bool.false_ne_true)]

theorem endState_space (hfree : ctx.freeText = false) (hrest : Flush rest) :
    d.endState ctx (' ' :: rest) = d.endState { ctx with atStart := false } rest := by
  rw [endState_of_blank hfree rfl, hrest.dropWhile]

/-- Where boxes and groups alone are open, what the start of the rest is read as. -/
theorem endState_of_nest (h : Nest ctx.state.stack) (hfree : ctx.freeText = false)
    {u tail : List Char} {k : Kind} {c : Context} (hu : Flush u)
    (hstep : d.freshStep ctx (u ++ tail) = ⟨k, u.length, c⟩) :
    d.endState ctx (u ++ tail) = d.endState { c with atStart := false } tail :=
  endState_append hu.ne_nil ((step_of_nest h hfree (hu.append tail).any_head?).trans hstep)

/-- A line that is one token from its start to its end. -/
theorem endState_of_token {s t : ScanState} (h : Nest s.stack) {u : List Char} {k : Kind}
    (hu : Flush u) (hstep : d.freshStep { state := s } u = ⟨k, u.length, { state := t }⟩) :
    d.endState { state := s } u = t :=
  endState_of_length hu.ne_nil ((step_of_nest h rfl hu.any_head?).trans hstep)

/-! ## What is left of a line -/

/-- **What is left of a line is read as** these lexemes, and the line hands on that
state. -/
structure ReadAs (d : Dialect) (ctx : Context) (rest : List Char) (ls : List Lexeme)
    (s : ScanState) : Prop where
  lexemes : (d.scanRest ctx rest).1 = ls
  state : d.endState ctx rest = s

namespace ReadAs

variable {c : Context} {ls : List Lexeme} {s t : ScanState}

theorem nil (d : Dialect) (ctx : Context) : d.ReadAs ctx [] [] ctx.settle.state :=
  ⟨by simp, by simp⟩

/-- One token takes all that is left. -/
theorem all {k : Kind} (hne : rest ≠ []) (h : d.step ctx rest = ⟨k, rest.length, c⟩) :
    d.ReadAs ctx rest [⟨k, rest⟩] c.settle.state :=
  ⟨by rw [scanRest_of_length hne h], endState_of_length hne h⟩

/-- One token is read, and what stands behind it as before. -/
theorem step {u tail : List Char} {k : Kind} (hu : u ≠ [])
    (hstep : d.step ctx (u ++ tail) = ⟨k, u.length, c⟩)
    (htail : d.ReadAs { c with atStart := false } tail ls s) :
    d.ReadAs ctx (u ++ tail) (⟨k, u⟩ :: ls) s := by
  refine ⟨?_, (endState_append hu hstep).trans htail.state⟩
  rw [scanRest_append hu hstep, htail.lexemes]

/-- Where boxes and groups alone are open a token is read as something new. -/
theorem token (h : Nest ctx.state.stack) (hfree : ctx.freeText = false) {u tail : List Char}
    {k : Kind} (hu : Flush u) (hstep : d.freshStep ctx (u ++ tail) = ⟨k, u.length, c⟩)
    (htail : d.ReadAs { c with atStart := false } tail ls s) :
    d.ReadAs ctx (u ++ tail) (⟨k, u⟩ :: ls) s :=
  htail.step hu.ne_nil ((step_of_nest h hfree (hu.append tail).any_head?).trans hstep)

/-- A space is a token of its own. -/
theorem space (hfree : ctx.freeText = false) (hrest : Flush rest)
    (h : d.ReadAs { ctx with atStart := false } rest ls s) :
    d.ReadAs ctx (' ' :: rest) (⟨.unstyled, [' ']⟩ :: ls) s := by
  have hgap : (' ' :: rest).takeWhile isBlank = [' '] := by
    rw [List.takeWhile_cons_of_pos rfl, hrest.takeWhile]
  have hstep : d.step ctx ([' '] ++ rest) = ⟨.unstyled, 1, ctx⟩ := by
    rw [List.singleton_append, step_of_blank hfree rfl, blankStep, hgap]
    rfl
  exact h.step (List.cons_ne_nil _ _) hstep

/-- A line is its indentation and what the rest of it is read as. -/
theorem scanLine {line : List Char}
    (h : d.ReadAs { state := s } (line.dropWhile isBlank) ls t) :
    d.scanLine s line = ⟨line.takeWhile isBlank, ls, t⟩ := by
  rw [← h.lexemes, ← h.state]
  rfl

end ReadAs

/-- The indentation of a line is immaterial. -/
theorem stateAfter_scanLine (d : Dialect) (s : ScanState) {indent : List Char}
    (hindent : Blank indent) {text : List Char} (htext : Flush text) :
    (d.scanLine s (indent ++ text)).stateAfter = d.endState { state := s } text := by
  show d.endState { state := s } ((indent ++ text).dropWhile isBlank) = _
  simp [htext, hindent]

theorem stateAfter_of_flush (d : Dialect) (s : ScanState) {text : List Char} (htext : Flush text) :
    (d.scanLine s text).stateAfter = d.endState { state := s } text :=
  d.stateAfter_scanLine s (List.forall_mem_nil _ : Blank []) htext

end Dialect

end UmlMarkup
