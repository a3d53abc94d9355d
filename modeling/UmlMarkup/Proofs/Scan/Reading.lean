import UmlMarkup.Scan.Line

/-!
# The ways to read a token

`Dialect.step` decides in a fixed order what stands at a position, so that each
choice is made under the failure of all before it. `Reads` turns that order into
a list: one constructor for each way to read a token, with all that is known
when it is taken. A property of steps is proved once for each constructor and
then holds of every step (`step_reads`), and the order of the choices is not
opened again.

A line is read by taking step after step, and `Walk` relates the positions that
it passes: from the one to the other, with the lexemes read in between. What
every step keeps holds at each position on the way (`Walk.invariant`), the end
of the line included (`walk_scanRest`).
-/

namespace UmlMarkup

/-- **A position at which something new may begin**: no comment, string or note
body is open there, and neither free text nor a blank stands there. -/
structure Fresh (ctx : Context) (rest : List Char) : Prop where
  freeText : ctx.freeText = false
  blank : rest.head?.any isBlank = false
  blockComment : ctx.state.mode ≠ .blockComment
  string : ctx.state.mode ≠ .string
  note : ctx.state.mode = .note → ctx.inHeader = true

/-- A fresh position at which neither a comment nor a string begins and which is
not the colon of a note header. -/
structure Unmarked (d : Dialect) (ctx : Context) (rest : List Char) : Prop
    extends Fresh ctx rest where
  lineComment : standsAt d.lineComment rest = false
  blockOpen : standsAt d.blockOpen rest = false
  quote : rest.head? ≠ some d.quote
  colon : (ctx.inHeader && rest.head? == some ':') = false

open Dialect in
/-- **The ways to read a token**, each with what is known when it is taken. -/
inductive Reads (d : Dialect) (ctx : Context) (rest : List Char) : Step → Prop
  | freeText (h : ctx.freeText = true) : Reads d ctx rest (plainStep ctx rest)
  | blank (hfree : ctx.freeText = false) (h : rest.head?.any isBlank = true) :
    Reads d ctx rest (blankStep ctx rest)
  | openComment (hfree : ctx.freeText = false) (hblank : rest.head?.any isBlank = false)
    (h : ctx.state.mode = .blockComment) :
    Reads d ctx rest (continueStep ctx rest .blockComment .comment d.blockClose)
  | openString (hfree : ctx.freeText = false) (hblank : rest.head?.any isBlank = false)
    (h : ctx.state.mode = .string) :
    Reads d ctx rest (continueStep ctx rest .string .string [d.quote])
  | noteCloser (hfree : ctx.freeText = false) (hblank : rest.head?.any isBlank = false)
    (h : ctx.state.mode = .note) (hheader : ctx.inHeader = false)
    (hstart : ctx.atStart = true) {c : Closer} (hc : d.closer? rest = some c) :
    Reads d ctx rest (closerStep ctx c)
  | noteText (hfree : ctx.freeText = false) (hblank : rest.head?.any isBlank = false)
    (h : ctx.state.mode = .note) (hheader : ctx.inHeader = false)
    (hc : ctx.atStart = true → d.closer? rest = none) :
    Reads d ctx rest (plainStep ctx rest)
  | lineComment (hfresh : Fresh ctx rest) (h : standsAt d.lineComment rest = true) :
    Reads d ctx rest ⟨.comment, rest.length, ctx⟩
  | blockComment (hfresh : Fresh ctx rest) (hline : standsAt d.lineComment rest = false)
    (h : standsAt d.blockOpen rest = true) : Reads d ctx rest (d.commentStep ctx rest)
  | string (hfresh : Fresh ctx rest) (hline : standsAt d.lineComment rest = false)
    (hblock : standsAt d.blockOpen rest = false) (h : rest.head? = some d.quote) :
    Reads d ctx rest (d.stringStep ctx rest)
  | colon (hfresh : Fresh ctx rest) (hheader : ctx.inHeader = true)
    (h : rest.head? = some ':') : Reads d ctx rest ⟨.operator, 1, ctx.endHeader⟩
  | closer (hfresh : Unmarked d ctx rest) {c : Closer} (hc : d.closer? rest = some c) :
    Reads d ctx rest (closerStep ctx c)
  | rule (hfresh : Unmarked d ctx rest) (hc : d.closer? rest = none) {r : Rule} {n : Nat}
    (hr : d.rule? ctx rest = some (r, n)) : Reads d ctx rest (ruleStep ctx rest r n)
  | word (hfresh : Unmarked d ctx rest) (hc : d.closer? rest = none)
    (hr : d.rule? ctx rest = none) : Reads d ctx rest (d.wordStep ctx rest)

namespace Dialect

theorem freshStep_reads (d : Dialect) {ctx : Context} {rest : List Char}
    (hfresh : Fresh ctx rest) : Reads d ctx rest (d.freshStep ctx rest) := by
  unfold freshStep
  split
  · next hline => exact .lineComment hfresh hline
  · next hline =>
    have hline := eq_false_of_ne_true hline
    split
    · next hblock => exact .blockComment hfresh hline hblock
    · next hblock =>
      have hblock := eq_false_of_ne_true hblock
      split
      · next hquote => exact .string hfresh hline hblock hquote
      · next hquote =>
        split
        · next hcolon =>
          obtain ⟨hheader, h⟩ := Bool.and_eq_true_iff.1 hcolon
          exact .colon hfresh hheader (eq_of_beq h)
        · next hcolon =>
          have hunmarked : Unmarked d ctx rest :=
            ⟨hfresh, hline, hblock, hquote, eq_false_of_ne_true hcolon⟩
          split
          · next c hc => exact .closer hunmarked hc
          · next hc =>
            split
            · next r n hr => exact .rule hunmarked hc hr
            · next hr => exact .word hunmarked hc hr

theorem bodyStep_reads (d : Dialect) {ctx : Context} {rest : List Char}
    (hfree : ctx.freeText = false) (hblank : rest.head?.any isBlank = false)
    (h : ctx.state.mode = .note) (hheader : ctx.inHeader = false) :
    Reads d ctx rest (d.bodyStep ctx rest) := by
  unfold bodyStep
  by_cases hstart : ctx.atStart = true
  · rw [if_pos hstart]
    split
    · next c hc => exact .noteCloser hfree hblank h hheader hstart hc
    · next hc => exact .noteText hfree hblank h hheader fun _ => hc
  · rw [if_neg hstart]
    exact .noteText hfree hblank h hheader fun h => absurd h hstart

/-- **Every step is one of the ways to read a token.** -/
theorem step_reads (d : Dialect) (ctx : Context) (rest : List Char) :
    Reads d ctx rest (d.step ctx rest) := by
  unfold step
  split
  · next hfree => exact .freeText hfree
  · next hfree =>
    have hfree := eq_false_of_ne_true hfree
    split
    · next hblank => exact .blank hfree hblank
    · next hblank =>
      have hblank := eq_false_of_ne_true hblank
      split
      · next hm => exact .openComment hfree hblank hm
      · next hm => exact .openString hfree hblank hm
      · next hm =>
        split
        · next hheader =>
          refine d.freshStep_reads ⟨hfree, hblank, ?_, ?_, fun _ => hheader⟩
          · rw [hm]; exact Mode.noConfusion
          · rw [hm]; exact Mode.noConfusion
        · next hheader =>
          exact d.bodyStep_reads hfree hblank hm (eq_false_of_ne_true hheader)
      · next hcomment hstring hnote =>
        exact d.freshStep_reads ⟨hfree, hblank, hcomment, hstring, fun h => absurd h hnote⟩

/-! ## The step where its choice is settled -/

variable {d : Dialect} {ctx : Context} {rest : List Char}

@[simp] theorem step_of_freeText (h : ctx.freeText = true) :
    d.step ctx rest = plainStep ctx rest := by
  rw [step, if_pos h]

theorem step_of_blank (hfree : ctx.freeText = false) (h : rest.head?.any isBlank = true) :
    d.step ctx rest = blankStep ctx rest := by
  rw [step, hfree, if_neg Bool.false_ne_true, if_pos h]

theorem step_of_blockComment (hfree : ctx.freeText = false)
    (hblank : rest.head?.any isBlank = false) (h : ctx.state.mode = .blockComment) :
    d.step ctx rest = continueStep ctx rest .blockComment .comment d.blockClose := by
  rw [step, hfree, hblank, if_neg Bool.false_ne_true, if_neg Bool.false_ne_true, h]

theorem step_of_string (hfree : ctx.freeText = false)
    (hblank : rest.head?.any isBlank = false) (h : ctx.state.mode = .string) :
    d.step ctx rest = continueStep ctx rest .string .string [d.quote] := by
  rw [step, hfree, hblank, if_neg Bool.false_ne_true, if_neg Bool.false_ne_true, h]

theorem step_of_note (hfree : ctx.freeText = false)
    (hblank : rest.head?.any isBlank = false) (h : ctx.state.mode = .note) :
    d.step ctx rest = if ctx.inHeader then d.freshStep ctx rest else d.bodyStep ctx rest := by
  rw [step, hfree, hblank, if_neg Bool.false_ne_true, if_neg Bool.false_ne_true, h]

/-! ## Walking through a line -/

/-- The context in which the step after this one is taken. -/
def contextAfter (d : Dialect) (ctx : Context) (rest : List Char) : Context :=
  { (d.step ctx rest).next with atStart := false }

/-- What this step leaves of the line. -/
def restAfter (d : Dialect) (ctx : Context) (rest : List Char) : List Char :=
  rest.drop (d.step ctx rest).length

/-- What this step reads. -/
def lexemeAt (d : Dialect) (ctx : Context) (rest : List Char) : Lexeme :=
  ⟨(d.step ctx rest).kind, rest.take (d.step ctx rest).length⟩

/-- Before the end of the line a scan reads one token and goes on behind it. -/
theorem scanRest_of_ne_nil (d : Dialect) (ctx : Context) {rest : List Char} (h : rest ≠ []) :
    d.scanRest ctx rest
      = (d.lexemeAt ctx rest :: (d.scanRest (d.contextAfter ctx rest) (d.restAfter ctx rest)).1,
        (d.scanRest (d.contextAfter ctx rest) (d.restAfter ctx rest)).2) := by
  rw [scanRest, dif_neg h]
  rfl

/-- **Induction along a line**: what holds at the end of the line, and before a token
if it holds behind it, holds everywhere. -/
@[elab_as_elim]
theorem scan_induction (d : Dialect) {P : Context → List Char → Prop}
    (atEnd : ∀ ctx, P ctx [])
    (token : ∀ ctx rest, rest ≠ [] → P (d.contextAfter ctx rest) (d.restAfter ctx rest) →
      P ctx rest)
    (ctx : Context) (rest : List Char) : P ctx rest := by
  induction hn : rest.length using Nat.strongRecOn generalizing ctx rest with
  | ind n ih =>
    by_cases h : rest = []
    · exact h ▸ atEnd ctx
    · have hs : Fits (d.step ctx rest).length rest := step_fits h
      have hlt : (d.restAfter ctx rest).length < n := by
        rw [restAfter, List.length_drop, ← hn]
        exact Nat.sub_lt (Nat.lt_of_lt_of_le hs.1 hs.2) hs.1
      exact token ctx rest h (ih _ hlt _ _ rfl)

/-- A lexeme is as long as its step. -/
@[simp] theorem length_lexemeAt (d : Dialect) (ctx : Context) {rest : List Char} (h : rest ≠ []) :
    (d.lexemeAt ctx rest).text.length = (d.step ctx rest).length :=
  List.length_take_of_le (step_fits h).2

/-- What a step reads and what it leaves are what was there. -/
@[simp] theorem text_lexemeAt_append (d : Dialect) (ctx : Context) (rest : List Char) :
    (d.lexemeAt ctx rest).text ++ d.restAfter ctx rest = rest :=
  List.take_append_drop ..

/-- A step that reads exactly `u` is followed by the scan of what stands behind
`u`. -/
theorem scanRest_append {u tail : List Char} {k : Kind} {c : Context} (hu : u ≠ [])
    (h : d.step ctx (u ++ tail) = ⟨k, u.length, c⟩) :
    d.scanRest ctx (u ++ tail)
      = (⟨k, u⟩ :: (d.scanRest { c with atStart := false } tail).1,
        (d.scanRest { c with atStart := false } tail).2) := by
  rw [d.scanRest_of_ne_nil ctx fun he => hu (List.append_eq_nil_iff.1 he).1, lexemeAt,
    contextAfter, restAfter, h, List.take_left, List.drop_left]

/-- A step that reads all that is left is the last of its line. -/
theorem scanRest_of_length {k : Kind} {c : Context} (hne : rest ≠ [])
    (h : d.step ctx rest = ⟨k, rest.length, c⟩) :
    d.scanRest ctx rest = ([⟨k, rest⟩], { c with atStart := false }) := by
  simp [h, d.scanRest_of_ne_nil ctx hne, lexemeAt, contextAfter, restAfter]

/-- A step that stays as it is when the line is lengthened is followed by the scan of what
it leaves, lengthened too. -/
theorem scanRest_of_step_eq {u ext : List Char} (hne : u ≠ [])
    (h : d.step ctx (u ++ ext) = d.step ctx u) :
    d.scanRest ctx (u ++ ext)
      = (d.lexemeAt ctx u :: (d.scanRest (d.contextAfter ctx u) (d.restAfter ctx u ++ ext)).1,
        (d.scanRest (d.contextAfter ctx u) (d.restAfter ctx u ++ ext)).2) := by
  have hle : (d.step ctx u).length ≤ u.length := (step_fits hne).2
  have hlexeme : d.lexemeAt ctx (u ++ ext) = d.lexemeAt ctx u := by
    rw [lexemeAt, h, List.take_append_of_le_length hle, lexemeAt]
  have hafter : d.contextAfter ctx (u ++ ext) = d.contextAfter ctx u := by
    rw [contextAfter, h, contextAfter]
  have hrest : d.restAfter ctx (u ++ ext) = d.restAfter ctx u ++ ext := by
    rw [restAfter, h, List.drop_append_of_le_length hle, restAfter]
  rw [scanRest_of_ne_nil d ctx fun he => hne (List.append_eq_nil_iff.1 he).1, hlexeme, hafter,
    hrest]

/-- Dialects that take the same steps read a line in the same way. -/
theorem scanRest_congr {d e : Dialect} (h : ∀ ctx rest, e.step ctx rest = d.step ctx rest)
    (ctx : Context) (rest : List Char) : e.scanRest ctx rest = d.scanRest ctx rest := by
  induction ctx, rest using scan_induction d with
  | atEnd ctx => simp
  | token ctx rest hne ih =>
    have hlexeme : e.lexemeAt ctx rest = d.lexemeAt ctx rest := by rw [lexemeAt, h, lexemeAt]
    have hafter : e.contextAfter ctx rest = d.contextAfter ctx rest := by
      rw [contextAfter, h, contextAfter]
    have hrest : e.restAfter ctx rest = d.restAfter ctx rest := by rw [restAfter, h, restAfter]
    rw [scanRest_of_ne_nil e ctx hne, hlexeme, hafter, hrest, ih, ← scanRest_of_ne_nil d ctx hne]

/-- **From one position of a line to a later one**, with the lexemes read in
between. -/
inductive Walk (d : Dialect) : Context → List Char → List Lexeme → Context → List Char → Prop
  | here (ctx : Context) (rest : List Char) : Walk d ctx rest [] ctx rest
  | step {ctx ctx' : Context} {rest rest' : List Char} {ls : List Lexeme} (h : rest ≠ [])
    (hw : Walk d (d.contextAfter ctx rest) (d.restAfter ctx rest) ls ctx' rest') :
    Walk d ctx rest (d.lexemeAt ctx rest :: ls) ctx' rest'

/-- Scanning the rest of a line walks to its end. -/
theorem walk_scanRest (d : Dialect) (ctx : Context) (rest : List Char) :
    Walk d ctx rest (d.scanRest ctx rest).1 (d.scanRest ctx rest).2 [] := by
  fun_induction scanRest d ctx rest with
  | case1 ctx => exact .here ctx []
  | case2 ctx rest h s lexemes last heq ih =>
    rw [heq] at ih
    exact .step h ih

/-- **What every step keeps holds at every position.** -/
theorem Walk.invariant {d : Dialect} {P : Context → List Char → Prop}
    (hstep : ∀ ctx rest, rest ≠ [] → P ctx rest →
      P (d.contextAfter ctx rest) (d.restAfter ctx rest))
    {ctx ctx' : Context} {rest rest' : List Char} {ls : List Lexeme}
    (hw : Walk d ctx rest ls ctx' rest') (h : P ctx rest) : P ctx' rest' := by
  induction hw with
  | here ctx rest => exact h
  | step hne hw ih => exact ih (hstep _ _ hne h)

end Dialect

end UmlMarkup
