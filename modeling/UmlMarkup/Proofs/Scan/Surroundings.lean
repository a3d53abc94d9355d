import Mathlib.Data.List.Forall2
import UmlMarkup.Proofs.Scan.Coverage
import UmlMarkup.Proofs.Scan.Nesting

/-!
# What surrounds a line does not move its tokens

The boxes and groups around a line decide which of its closers close something.
They decide nothing else: scanned inside different boxes and groups, a line falls
into the same tokens, and only the kinds of closers can differ, one of the two being
plain text.

Two scans of the same line are compared step by step. What they keep in common is
the part of the stack above the boxes and groups, and all that is known within the
line (`Context.Alike`); below that part the two stacks need have nothing to do with
each other. A closer is where they may part: in one scan it closes a box or a group,
in the other it does not. But it takes the same characters in both, and what it
takes off lies below the common part, which is empty then. A note, a comment or a
string is innermost in both scans or in neither, so nothing that comes later on the
line can tell them apart.
-/

namespace UmlMarkup

/-! ## Stacks that differ in boxes and groups -/

/-- Whether a construct is a note, a comment or a string, which the scanner treats
in ways of their own while they are innermost. -/
def Mode.IsInner (m : Mode) : Prop := m = .note ∨ m.IsLiteral

/-- **Two states differ only in the boxes and groups at the bottom**: above these,
the same notes, comments and strings are open. -/
def ScanState.Alike (s t : ScanState) : Prop :=
  ∃ above below below', (∀ m ∈ above, m.IsInner) ∧ Nest below ∧ Nest below'
    ∧ s.stack = above ++ below ∧ t.stack = above ++ below'

theorem Mode.IsInner.ne_normal {m : Mode} (h : m.IsInner) : m ≠ .normal := by
  rcases h with rfl | rfl | rfl <;> exact Mode.noConfusion

theorem Mode.IsInner.ne_color {m : Mode} (h : m.IsInner) : m ≠ .color := by
  rcases h with rfl | rfl | rfl <;> exact Mode.noConfusion

namespace ScanState

namespace Alike

variable {s t : ScanState}

theorem of_nest (hs : Nest s.stack) (ht : Nest t.stack) : s.Alike t :=
  ⟨[], s.stack, t.stack, List.forall_mem_nil _, hs, ht, rfl, rfl⟩

/-- Alike are states in which boxes and groups alone are open, and states that are
alike below a common note, comment or string. -/
theorem cases (h : s.Alike t) :
    Nest s.stack ∧ Nest t.stack
    ∨ ∃ m s' t', m.IsInner ∧ Alike s' t' ∧ s.stack = m :: s'.stack
        ∧ t.stack = m :: t'.stack := by
  obtain ⟨above, below, below', habove, hb, hb', hs, ht⟩ := h
  cases above with
  | nil => exact Or.inl ⟨hs ▸ hb, ht ▸ hb'⟩
  | cons m above =>
    obtain ⟨hm, habove⟩ := List.forall_mem_cons.1 habove
    exact Or.inr ⟨m, ⟨above ++ below⟩, ⟨above ++ below'⟩, hm,
      ⟨above, below, below', habove, hb, hb', rfl, rfl⟩, hs, ht⟩

theorem cons {s' t' : ScanState} (h : s.Alike t) {m : Mode} (hm : m.IsInner)
    (hs : s'.stack = m :: s.stack) (ht : t'.stack = m :: t.stack) : s'.Alike t' := by
  obtain ⟨above, below, below', habove, hb, hb', hs', ht'⟩ := h
  refine ⟨m :: above, below, below', List.forall_mem_cons.2 ⟨hm, habove⟩, hb, hb', ?_, ?_⟩
  · rw [hs, hs', List.cons_append]
  · rw [ht, ht', List.cons_append]

theorem mode_ne_color (h : s.Alike t) : s.mode ≠ .color ∧ t.mode ≠ .color := by
  rcases h.cases with ⟨hs, ht⟩ | ⟨m, s', t', hm, -, hs, ht⟩
  · constructor
    · rcases hs.mode with h | h | h <;> rw [h] <;> exact Mode.noConfusion
    · rcases ht.mode with h | h | h <;> rw [h] <;> exact Mode.noConfusion
  · rw [mode_of_stack hs, mode_of_stack ht]
    exact ⟨hm.ne_color, hm.ne_color⟩

/-- Whatever is closed, alike states stay alike: what is common to them is closed in
both or in neither, and below that nothing is asked. -/
theorem exit (h : s.Alike t) (m : Mode) : (s.exit m).Alike (t.exit m) := by
  rcases h.cases with ⟨hs, ht⟩ | ⟨top, s', t', htop, h', hs, ht⟩
  · exact of_nest (hs.exit m) (ht.exit m)
  · by_cases hm : top = m
    · subst hm
      rwa [exit_of_close? (close?_eq_some_iff.2 hs), exit_of_close? (close?_eq_some_iff.2 ht)]
    · rwa [exit_of_close?_eq_none (close?_eq_none_of_mode (mode_of_stack hs ▸ hm)),
        exit_of_close?_eq_none (close?_eq_none_of_mode (mode_of_stack ht ▸ hm))]

theorem enter (h : s.Alike t) {m : Mode} (hm : m.IsInner) : (s.enter m).Alike (t.enter m) :=
  h.cons hm (stack_enter hm.ne_normal) (stack_enter hm.ne_normal)

end Alike

end ScanState

/-! ## Positions and steps that are alike -/

/-- Two contexts agree on all that is known within the line, and their states are
alike. -/
structure Context.Alike (c c' : Context) : Prop where
  state : c.state.Alike c'.state
  header : c'.header = c.header
  freeText : c'.freeText = c.freeText
  atStart : c'.atStart = c.atStart

namespace Context.Alike

variable {c c' : Context}

/-- Of contexts that are alike only the states differ. -/
theorem eq (h : c.Alike c') : c' = { c with state := c'.state } := by
  obtain ⟨state, header, freeText, atStart⟩ := c'
  obtain ⟨-, rfl, rfl, rfl⟩ := h
  rfl

theorem settle (h : c.Alike c') : c.settle.Alike c'.settle := by
  unfold Context.settle
  by_cases hq : c.header = .quoted
  · rw [if_pos hq, if_pos (h.header.trans hq)]
    exact ⟨h.state.exit .note, rfl, h.freeText, h.atStart⟩
  · rw [if_neg hq, if_neg (h.header ▸ hq)]
    exact h

theorem enter (h : c.Alike c') {m : Mode} (hm : m.IsInner) : (c.enter m).Alike (c'.enter m) :=
  ⟨h.state.enter hm, by simp [h.header], h.freeText, h.atStart⟩

end Context.Alike

namespace Dialect

/-- The pattern of a closing rule matches `n` characters at the start of `rest`. -/
def CloserMatches (d : Dialect) (rest : List Char) (n : Nat) : Prop :=
  ∃ r ∈ d.rules, (∃ m, r.effect = .exit m) ∧ r.pattern.matchLength? rest = some n

theorem closerMatches_of_closer? {d : Dialect} {rest : List Char} {c : Closer}
    (h : d.closer? rest = some c) : d.CloserMatches rest c.length := by
  obtain ⟨r, hmem, heffect, -, hn, -⟩ := closer?_spec h
  exact ⟨r, hmem, ⟨c.mode, heffect⟩, (Option.filter_eq_some_iff.1 hn).1⟩

/-- **Two steps at the same position that differ in nothing but the kind of a
closer**, and in the boxes and groups that are open. -/
structure Parallel (d : Dialect) (rest : List Char) (a b : Step) : Prop where
  length : b.length = a.length
  next : a.next.Alike b.next
  kind : b.kind ≠ a.kind →
    (a.kind = .unstyled ∨ b.kind = .unstyled) ∧ d.CloserMatches rest a.length

variable {d : Dialect} {ctx ctx' : Context} {rest : List Char}

/-- Steps of the same kind and length. -/
theorem Parallel.of_eq {kind : Kind} {n : Nat} (h : ctx.Alike ctx') :
    d.Parallel rest ⟨kind, n, ctx⟩ ⟨kind, n, ctx'⟩ :=
  ⟨rfl, h, fun hne => absurd rfl hne⟩

theorem continueStep_parallel (h : ctx.Alike ctx') (m : Mode) (kind : Kind)
    (closer : List Char) :
    d.Parallel rest (continueStep ctx rest m kind closer)
      (continueStep ctx' rest m kind closer) := by
  unfold continueStep
  split
  · exact .of_eq ⟨h.state.exit m, h.header, h.freeText, h.atStart⟩
  · exact .of_eq h

theorem unclosedStep_parallel (h : ctx.Alike ctx') {m : Mode} (hm : m.IsInner) (kind : Kind) :
    d.Parallel rest (unclosedStep ctx rest m kind) (unclosedStep ctx' rest m kind) :=
  .of_eq (h.settle.enter hm)

theorem commentStep_parallel (h : ctx.Alike ctx') :
    d.Parallel rest (d.commentStep ctx rest) (d.commentStep ctx' rest) := by
  unfold commentStep
  split
  · exact .of_eq h
  · exact unclosedStep_parallel h (Or.inr (Or.inl rfl)) .comment

theorem stringStep_parallel (h : ctx.Alike ctx') :
    d.Parallel rest (d.stringStep ctx rest) (d.stringStep ctx' rest) := by
  unfold stringStep
  split
  · refine .of_eq ⟨h.state, ?_, h.freeText, h.atStart⟩
    rw [Context.markQuoted, Context.markQuoted, Context.inHeader, Context.inHeader, h.header]
  · exact unclosedStep_parallel h (Or.inr (Or.inr rfl)) .string

/-- Where boxes and groups alone are open a closer closes one of them or is plain
text, and a note header, if any were read, would not end. -/
theorem closerStep_of_nest (h : Nest ctx.state.stack) (c : Closer) :
    ((closerStep ctx c).kind = c.kind ∨ (closerStep ctx c).kind = .unstyled)
    ∧ ∃ s, Nest s.stack ∧ (closerStep ctx c).next = { ctx with state := s } := by
  unfold closerStep
  split
  · next s hs =>
    have hstack := ScanState.close?_eq_some_iff.1 hs
    rw [hstack] at h
    have hm : c.mode ≠ .note := by
      rcases h c.mode List.mem_cons_self with hm | hm <;> rw [hm] <;> exact Mode.noConfusion
    exact ⟨Or.inl rfl, s, h.tail, by rw [if_neg hm]⟩
  · exact ⟨Or.inr rfl, ctx.state, h, rfl⟩

theorem closerStep_parallel (h : ctx.Alike ctx') {c : Closer} (hc : d.closer? rest = some c) :
    d.Parallel rest (closerStep ctx c) (closerStep ctx' c) := by
  have hmatch : d.CloserMatches rest (closerStep ctx c).length := by
    rw [closerStep_length]
    exact closerMatches_of_closer? hc
  have hlength : (closerStep ctx' c).length = (closerStep ctx c).length := by
    simp
  rcases h.state.cases with ⟨hn, hn'⟩ | ⟨top, s, s', htop, hs, heq, heq'⟩
  · -- here the two may part
    obtain ⟨hkind, t, ht, hnext⟩ := closerStep_of_nest hn c
    obtain ⟨hkind', t', ht', hnext'⟩ := closerStep_of_nest hn' c
    refine ⟨hlength, ?_, fun hne => ⟨?_, hmatch⟩⟩
    · rw [hnext, hnext']
      exact ⟨.of_nest ht ht', h.header, h.freeText, h.atStart⟩
    · rcases hkind with hk | hk
      · rcases hkind' with hk' | hk'
        · exact absurd (hk'.trans hk.symm) hne
        · exact Or.inr hk'
      · exact Or.inl hk
  · -- what is innermost is common to both
    by_cases hm : top = c.mode
    · unfold closerStep
      rw [ScanState.close?_eq_some_iff.2 (hm ▸ heq), ScanState.close?_eq_some_iff.2 (hm ▸ heq')]
      exact .of_eq ⟨hs, by dsimp only; rw [h.header], h.freeText, h.atStart⟩
    · have hnone : ctx.state.close? c.mode = none :=
        ScanState.close?_eq_none_of_mode (ScanState.mode_of_stack heq ▸ hm)
      have hnone' : ctx'.state.close? c.mode = none :=
        ScanState.close?_eq_none_of_mode (ScanState.mode_of_stack heq' ▸ hm)
      unfold closerStep
      rw [hnone, hnone']
      exact .of_eq h

/-- How far a color literal reaches is a matter of the text alone. -/
theorem readColor_enter_text {s t : ScanState} (hs : s.mode ≠ .color) (ht : t.mode ≠ .color)
    (text : List Char) :
    (readColor (s.enter .color) text).2 = (readColor (t.enter .color) text).2 := by
  induction text with
  | nil => rw [readColor_enter_nil hs, readColor_enter_nil ht]
  | cons c rest ih =>
    rw [readColor_enter_cons hs, readColor_enter_cons ht]
    by_cases hc : continuesColor c rest = true
    · rw [if_pos hc, if_pos hc, ih]
    · rw [if_neg hc, if_neg hc]

theorem readMatch_length (h : ctx.Alike ctx') (r : Rule) (n : Nat) :
    (readMatch ctx' rest r n).2 = (readMatch ctx rest r n).2 := by
  unfold readMatch
  split
  · obtain ⟨hs, ht⟩ := h.state.mode_ne_color
    simp only [readColor_enter_text hs ht]
  · rfl

theorem ruleStep_parallel (hd : d.EntersConstructs) (h : ctx.Alike ctx')
    (hnest : ctx.inHeader = true ∨ Nest ctx.state.stack ∧ Nest ctx'.state.stack)
    {r : Rule} {n : Nat} (hr : d.rule? ctx rest = some (r, n)) :
    d.Parallel rest (ruleStep ctx rest r n) (ruleStep ctx' rest r n) := by
  obtain ⟨hmem, -, hadm⟩ := rule?_spec hr
  have henters := hd r hmem
  obtain ⟨hs, ht⟩ := h.state.mode_ne_color
  unfold ruleStep
  simp only [state_readMatch hs, state_readMatch ht, readMatch_length h]
  have hkept : Context.Alike { ctx with freeText := ctx.freeText || r.freeText }
      { ctx' with freeText := ctx'.freeText || r.freeText } :=
    ⟨h.state, h.header, by dsimp only; rw [h.freeText], h.atStart⟩
  cases he : r.effect with
  | none => exact .of_eq hkept
  | exit m => exact .of_eq hkept
  | enter m =>
    rw [he] at henters
    refine .of_eq ?_
    rcases henters with rfl | hm
    · exact hkept.enter (Or.inl rfl)
    · -- a box or a group opens outside a header only, on boxes and groups
      have hheader : ctx.inHeader = false := inHeader_of_admits hadm (by rw [Rule.opens, he])
      rcases hnest with hh | ⟨hn, hn'⟩
      · exact absurd (hh.symm.trans hheader) Bool.noConfusion
      · have hnormal : m ≠ .normal := by rcases hm with rfl | rfl <;> exact Mode.noConfusion
        have hnote : m ≠ .note := by rcases hm with rfl | rfl <;> exact Mode.noConfusion
        refine ⟨.of_nest ?_ ?_, ?_, hkept.freeText, h.atStart⟩
        · exact (ScanState.stack_enter hnormal).symm ▸ hn.cons hm
        · exact (ScanState.stack_enter hnormal).symm ▸ hn'.cons hm
        · simp [hnote, h.header]

/-! ## The choices at a position -/

theorem freshStep_parallel (hd : d.EntersConstructs) (h : ctx.Alike ctx')
    (hnest : ctx.inHeader = true ∨ Nest ctx.state.stack ∧ Nest ctx'.state.stack) :
    d.Parallel rest (d.freshStep ctx rest) (d.freshStep ctx' rest) := by
  have hheader : ctx'.inHeader = ctx.inHeader := by
    rw [Context.inHeader, Context.inHeader, h.header]
  have hrule : d.rule? ctx' rest = d.rule? ctx rest := by rw [h.eq]; rfl
  unfold freshStep
  rw [hheader, hrule]
  split
  · exact .of_eq h
  · split
    · exact commentStep_parallel h
    · split
      · exact stringStep_parallel h
      · split
        · exact .of_eq ⟨h.state.exit .note, rfl, rfl, h.atStart⟩
        · split
          · next c hc => exact closerStep_parallel h hc
          · split
            · next r n hr => exact ruleStep_parallel hd h hnest hr
            · rw [wordStep, wordStep, hheader]
              exact .of_eq h

theorem bodyStep_parallel (h : ctx.Alike ctx') :
    d.Parallel rest (d.bodyStep ctx rest) (d.bodyStep ctx' rest) := by
  unfold bodyStep
  rw [h.atStart]
  split
  · next c hc =>
    split at hc
    · exact closerStep_parallel h hc
    · cases hc
  · exact .of_eq h

/-- **Steps taken in contexts that are alike** differ in nothing but the kind of a
closer. -/
theorem step_parallel (hd : d.EntersConstructs) (h : ctx.Alike ctx') (rest : List Char) :
    d.Parallel rest (d.step ctx rest) (d.step ctx' rest) := by
  cases hfree : ctx.freeText with
  | true =>
    rw [step_of_freeText hfree, step_of_freeText (h.freeText.trans hfree)]
    exact .of_eq h
  | false =>
    have hfree' : ctx'.freeText = false := h.freeText.trans hfree
    cases hblank : rest.head?.any isBlank with
    | true =>
      rw [step_of_blank hfree hblank, step_of_blank hfree' hblank]
      exact .of_eq h
    | false =>
      rcases h.state.cases with ⟨hn, hn'⟩ | ⟨m, s, s', hm, -, heq, heq'⟩
      · rw [step_of_nest hn hfree hblank, step_of_nest hn' hfree' hblank]
        exact freshStep_parallel hd h (Or.inr ⟨hn, hn'⟩)
      · have hmode := ScanState.mode_of_stack heq
        have hmode' := ScanState.mode_of_stack heq'
        rcases hm with rfl | rfl | rfl
        · have hheader : ctx'.inHeader = ctx.inHeader := by
            rw [Context.inHeader, Context.inHeader, h.header]
          rw [step_of_note hfree hblank hmode, step_of_note hfree' hblank hmode', hheader]
          split
          · next hin => exact freshStep_parallel hd h (Or.inl hin)
          · exact bodyStep_parallel h
        · rw [step_of_blockComment hfree hblank hmode, step_of_blockComment hfree' hblank hmode']
          exact continueStep_parallel h _ _ _
        · rw [step_of_string hfree hblank hmode, step_of_string hfree' hblank hmode']
          exact continueStep_parallel h _ _ _

/-! ## The two scans of a line -/

/-- **Two tokens of a line differ at most as closers do**: they cover the same
columns, and where they are not of the same kind one of them is plain text and the
columns are those that the pattern of a closing rule matches there. -/
structure SameButClosers (d : Dialect) (line : List Char) (t u : Token) : Prop where
  span : u.span = t.span
  kind : u.kind ≠ t.kind → (t.kind = .unstyled ∨ u.kind = .unstyled)
    ∧ d.CloserMatches (line.drop t.span.start) t.span.length

theorem map_span_eq {line : List Char} {ts us : List Token}
    (h : List.Forall₂ (d.SameButClosers line) ts us) :
    us.map Token.span = ts.map Token.span := by
  induction h with
  | nil => rfl
  | cons h _ ih => rw [List.map_cons, List.map_cons, h.span, ih]

/-- What two scans of the rest of a line have in common. -/
theorem scanRest_parallel (hd : d.EntersConstructs) (h : ctx.Alike ctx')
    (before rest : List Char) :
    List.Forall₂ (d.SameButClosers (before ++ rest))
        (layout before.length (d.scanRest ctx rest).1)
        (layout before.length (d.scanRest ctx' rest).1)
      ∧ (d.scanRest ctx rest).2.Alike (d.scanRest ctx' rest).2 := by
  induction ctx, rest using scan_induction d generalizing ctx' before with
  | atEnd ctx => simpa using h
  | token ctx rest hne ih =>
    have hs := step_parallel hd h rest
    have hrest : d.restAfter ctx' rest = d.restAfter ctx rest := by
      rw [restAfter, restAfter, hs.length]
    have htext : (d.lexemeAt ctx' rest).text = (d.lexemeAt ctx rest).text := by
      rw [lexemeAt, lexemeAt, hs.length]
    have hnext : (d.contextAfter ctx rest).Alike (d.contextAfter ctx' rest) :=
      ⟨hs.next.state, hs.next.header, hs.next.freeText, rfl⟩
    obtain ⟨htokens, hlast⟩ := ih hnext (before ++ (d.lexemeAt ctx rest).text)
    rw [List.append_assoc, text_lexemeAt_append, List.length_append] at htokens
    rw [scanRest_of_ne_nil d ctx hne, scanRest_of_ne_nil d ctx' hne, hrest, layout, layout,
      htext]
    refine ⟨.cons ⟨rfl, fun hkind => ?_⟩ htokens, hlast⟩
    dsimp only [Span.length]
    rw [Nat.add_sub_cancel_left, List.drop_left, length_lexemeAt d ctx hne]
    exact hs.kind hkind

/-- **What surrounds a line does not move its tokens.** Scanned inside any boxes and
groups, or inside none, a line falls into the same spans; where two tokens of the
same columns are not of the same kind, one of them is plain text and the columns are
those that the pattern of a closing rule matches there; and what is left open differs
at most in the boxes and groups at the bottom, with the same notes, comments and
strings above. -/
theorem spans_independent_of_surroundings (hd : d.EntersConstructs) {s s' : ScanState}
    (hs : Nest s.stack) (hs' : Nest s'.stack) (line : List Char) :
    (d.scanLine s' line).tokens.map Token.span = (d.scanLine s line).tokens.map Token.span
    ∧ (∀ t u, (t, u) ∈ (d.scanLine s line).tokens.zip (d.scanLine s' line).tokens →
        u.kind ≠ t.kind → (t.kind = .unstyled ∨ u.kind = .unstyled)
          ∧ ∃ r ∈ d.rules, (∃ m, r.effect = .exit m)
            ∧ r.pattern.matchLength? (line.drop t.span.start) = some t.span.length)
    ∧ ∃ above below below', (∀ m ∈ above, m.IsInner) ∧ Nest below ∧ Nest below'
      ∧ (d.scanLine s line).stateAfter.stack = above ++ below
      ∧ (d.scanLine s' line).stateAfter.stack = above ++ below' := by
  have hctx : Context.Alike { state := s } { state := s' } :=
    ⟨.of_nest hs hs', rfl, rfl, rfl⟩
  obtain ⟨htokens, hlast⟩ :=
    scanRest_parallel hd hctx (line.takeWhile isBlank) (line.dropWhile isBlank)
  rw [List.takeWhile_append_dropWhile] at htokens
  exact ⟨map_span_eq htokens, fun t u hmem => (List.forall₂_zip htokens hmem).kind,
    hlast.settle.state⟩

/-- A bare `end` before a comment that is left open: inside a group it closes the
group, at the top level it is plain text, and the comment is innermost either way. -/
theorem spans_independent_of_surroundings_of_end :
    sequence.EntersConstructs ∧ Nest ScanState.initial.stack
    ∧ Nest (ScanState.ofFrames [.box, .group]).stack
    ∧ (sequence.scanLine .initial "end /' x".toList).stateAfter.stack = [.blockComment]
    ∧ (sequence.scanLine (.ofFrames [.box, .group]) "end /' x".toList).stateAfter.stack
      = [.blockComment, .box]
    ∧ (sequence.scanLine (.ofFrames [.box, .group]) "end /' x".toList).tokens.map Token.kind
      ≠ (sequence.scanLine .initial "end /' x".toList).tokens.map Token.kind
    ∧ (sequence.scanLine (.ofFrames [.box, .group]) "end /' x".toList).tokens.map Token.span
      = (sequence.scanLine .initial "end /' x".toList).tokens.map Token.span := by
  have hd : sequence.EntersConstructs := builtin_entersConstructs sequence List.mem_cons_self
  have hs' : Nest (ScanState.ofFrames [.box, .group]).stack :=
    (nest_nil.cons (Or.inl rfl)).cons (Or.inr rfl)
  exact ⟨hd, nest_nil, hs', by decide +kernel, by decide +kernel, by decide +kernel,
    (spans_independent_of_surroundings hd nest_nil hs' _).1⟩

end Dialect

end UmlMarkup
