import UmlMarkup.Proofs.Scan.Interiors
import UmlMarkup.Proofs.Scan.Lookahead

/-!
# Breaking a line inside a literal

A comment or a string may go on over several lines, and where it is broken is of no
account: the scan of one line with a literal in it is the scan of its first part,
followed by the scan of the second part in the state that the first part leaves
(`line_break_in_literal`).

Much is forgotten at the end of a line: that the rest was free text, that it was the
header of a note, that some token stood before. None of it is known behind the literal
either. Free text never ends, a literal that is read there opens nothing, and the tokens
before it are not at the start of a line any more. The header of a note is the exception:
it goes on behind a literal on the same line, but not on the next, and so no note must
have been opened on the first line.

The other thing to see is that the first part is read as before when the second stands
behind it. That is what the opening marker is good for, beyond which no step looks
(`overlooked_of_marked`).
-/

namespace UmlMarkup

/-! ## Tables -/

namespace Dialect

/-- **A dialect in which lines may be broken inside literals**: nothing looks beyond the
start of a comment or a string, nothing but notes, boxes and groups is opened by a rule, and
notes are opened by keywords. -/
structure Breakable (d : Dialect) : Prop extends StopsAtMarks d where
  enters : d.EntersConstructs
  notes : ∀ r ∈ d.rules, r.effect = .enter .note →
    r.kind = .keyword ∧ r.extent = .exact ∧ r.pattern.IsSpelled

theorem breakable : ∀ d ∈ [sequence, classDiagram, object], d.Breakable := by
  refine fun d hd => ⟨stopsAtMarks d hd, ?_, ?_⟩ <;> revert d <;> decide +kernel

/-- A keyword that opens a note. -/
def OpensNote (d : Dialect) (l : Lexeme) : Prop :=
  l.kind = .keyword
    ∧ ∃ r ∈ d.rules, r.effect = .enter .note ∧ squeeze l.text ∈ r.pattern.spellings

instance (d : Dialect) : DecidablePred d.OpensNote := fun l =>
  inferInstanceAs (Decidable (l.kind = .keyword
    ∧ ∃ r ∈ d.rules, r.effect = .enter .note ∧ squeeze l.text ∈ r.pattern.spellings))

/-! ## Closing markers across a break -/

section

variable {d : Dialect} {ctx : Context} {s : ScanState} {m : Mode} {kind : Kind}
  {marker a u text ext : List Char}

/-- A marker does not begin before a gap and end behind it. -/
theorem past?_append_of_atGap (hmarker : Solid marker) (hu : ¬ marker <:+: u)
    (hext : AtGap ext) : past? marker (u ++ ext) = (past? marker ext).map (u.length + ·) :=
  past?_append fun _ hv _ hpre =>
    hu ((prefix_of_gapless hmarker.2.gapless hext hpre).isInfix.trans hv.isInfix)

/-- Nor does it begin in blanks. -/
theorem past?_append_of_blank (hmarker : Solid marker) (hu : Blank u) (text : List Char) :
    past? marker (u ++ text) = (past? marker text).map (u.length + ·) :=
  past?_append fun v hv hne hpre => by
    obtain ⟨c, marker, rfl⟩ := List.exists_cons_of_ne_nil hmarker.1
    obtain ⟨b, v, rfl⟩ := List.exists_cons_of_ne_nil hne
    obtain ⟨rfl, -⟩ := List.cons_prefix_cons.1 hpre
    have hblank : isBlank c = true := hu c (hv.subset List.mem_cons_self)
    exact Bool.noConfusion (hblank.symm.trans (hmarker.2 c List.mem_cons_self))

/-! ## Going on with a literal -/

/-- **What is read of a text at the start of which a literal is open**, `a` being what has
been read of the literal before on the same line. -/
def resume (d : Dialect) (s : ScanState) (m : Mode) (kind : Kind) (marker a text : List Char) :
    List Lexeme × Context :=
  match past? marker text with
  | some n =>
    let behind := d.scanRest { state := s, atStart := false } (text.drop n)
    (⟨kind, a ++ text.take n⟩ :: behind.1, behind.2)
  | none => ([⟨kind, a ++ text⟩], { state := ⟨m :: s.stack⟩, atStart := false })

theorem resume_of_none (h : past? marker text = none) :
    d.resume s m kind marker a text
      = ([⟨kind, a ++ text⟩], { state := ⟨m :: s.stack⟩, atStart := false }) := by
  rw [resume, h]

theorem resume_of_some {n : Nat} (h : past? marker text = some n) :
    d.resume s m kind marker a text
      = (⟨kind, a ++ text.take n⟩ :: (d.scanRest { state := s, atStart := false } (text.drop n)).1,
        (d.scanRest { state := s, atStart := false } (text.drop n)).2) := by
  rw [resume, h]

/-- What the marker does not begin in belongs to the literal. -/
theorem resume_append (h : past? marker (u ++ text) = (past? marker text).map (u.length + ·)) :
    d.resume s m kind marker a (u ++ text) = d.resume s m kind marker (a ++ u) text := by
  rw [resume, h, resume]
  cases past? marker text with
  | none => rw [Option.map_none, List.append_assoc]
  | some n =>
    rw [Option.map_some]
    dsimp only
    rw [List.drop_length_add_append, List.take_length_add_append, List.append_assoc]

/-- A step that goes on with a literal, or opens one, is followed by what comes behind
it. -/
theorem scanRest_of_literal (hne : u ++ text ≠ []) (hfree : ctx.freeText = false)
    (hheader : ctx.header = .absent)
    (hstep : d.step ctx (u ++ text) = match past? marker text with
      | some n => ⟨kind, u.length + n, { ctx with state := s }⟩
      | none => ⟨kind, (u ++ text).length, { ctx with state := ⟨m :: s.stack⟩ }⟩) :
    d.scanRest ctx (u ++ text) = d.resume s m kind marker u text := by
  obtain ⟨state, header, freeText, atStart⟩ := ctx
  cases hfree
  cases hheader
  rw [resume]
  cases hn : past? marker text with
  | none =>
    rw [hn] at hstep
    exact scanRest_of_length hne hstep
  | some n =>
    rw [hn] at hstep
    rw [scanRest_of_ne_nil d _ hne, lexemeAt, contextAfter, restAfter, hstep]
    dsimp only
    rw [List.take_length_add_append, List.drop_length_add_append]

/-- A line inside a literal. -/
theorem scanRest_of_open (h : d.Literal m kind marker) (hne : text ≠ [])
    (hflush : text.head?.any isBlank = false) (below : List Mode) :
    d.scanRest { state := ⟨m :: below⟩ } text = d.resume ⟨below⟩ m kind marker [] text := by
  refine scanRest_of_literal (u := []) hne rfl rfl ?_
  rw [List.nil_append, step_of_literal h hflush, continueStep]
  cases past? marker text with
  | none => rfl
  | some n =>
    dsimp only
    simp [Context.exit]

/-! ## Scans that end inside a literal -/

/-- **A scan that ends inside a literal goes on with it** when the line is lengthened behind
a gap: `ls` has been read before the literal, and `a` of the literal. -/
structure Pending (d : Dialect) (ctx : Context) (u : List Char) (m : Mode) (kind : Kind)
    (marker : List Char) (s : ScanState) (ls : List Lexeme) (a : List Char) : Prop where
  literal : d.Literal m kind marker
  scan : ∀ ext, AtGap ext → d.scanRest ctx (u ++ ext)
    = (ls ++ (d.resume s m kind marker a ext).1, (d.resume s m kind marker a ext).2)

variable {ls : List Lexeme}

/-- A step that stays as it is may be put before. -/
theorem Pending.cons (hne : u ≠ [])
    (hstep : ∀ ext, AtGap ext → d.step ctx (u ++ ext) = d.step ctx u)
    (h : d.Pending (d.contextAfter ctx u) (d.restAfter ctx u) m kind marker s ls a) :
    d.Pending ctx u m kind marker s (d.lexemeAt ctx u :: ls) a := by
  refine ⟨h.literal, fun ext hext => ?_⟩
  rw [scanRest_of_step_eq hne (hstep ext hext), h.scan ext hext]
  rfl

/-- A literal starts here and does not end. -/
theorem pending_of_opener (hd : d.Breakable) (h : d.Literal m kind marker)
    (hnest : Nest ctx.state.stack) (hheader : ctx.header = .absent) (opener : List Char)
    {inner : List Char} (hfresh : Fresh ctx (opener ++ inner)) (hopener : opener ≠ [])
    (hpast : past? marker inner = none)
    (hstep : ∀ ext, AtGap ext → d.freshStep ctx (opener ++ inner ++ ext)
      = match past? marker (inner ++ ext) with
        | some n => ⟨kind, opener.length + n, ctx⟩
        | none => unclosedStep ctx (opener ++ inner ++ ext) m kind) :
    d.Pending ctx (opener ++ inner) m kind marker ctx.state [] (opener ++ inner) := by
  refine ⟨h, fun ext hext => ?_⟩
  have hsolid := h.solid hd.toTight
  have hu : opener ++ inner ≠ [] := fun he => hopener (List.append_eq_nil_iff.1 he).1
  have hblank : (opener ++ inner ++ ext).head?.any isBlank = false := by
    rw [List.head?_append_of_ne_nil _ hu]
    exact hfresh.blank
  refine scanRest_of_literal (fun he => hu (List.append_eq_nil_iff.1 he).1) hfresh.freeText
    hheader ?_
  rw [step_of_nest hnest hfresh.freeText hblank, hstep ext hext,
    past?_append_of_atGap hsolid ((past?_eq_none_iff hsolid.1).1 hpast) hext]
  cases past? marker ext with
  | none =>
    rw [Option.map_none]
    dsimp only
    rw [unclosedStep, Context.settle_of_absent hheader]
    cases h <;> rfl
  | some n =>
    rw [Option.map_some]
    dsimp only
    rw [List.length_append, Nat.add_assoc]

theorem pending_of_comment (hd : d.Breakable) (hnest : Nest ctx.state.stack)
    (hheader : ctx.header = .absent) (hfresh : Fresh ctx u)
    (hline : standsAt d.lineComment u = false) (hopen : standsAt d.blockOpen u = true)
    (hpast : past? d.blockClose (u.drop d.blockOpen.length) = none) :
    d.Pending ctx u .blockComment .comment d.blockClose ctx.state [] u := by
  obtain ⟨inner, rfl⟩ := List.isPrefixOf_iff_prefix.1 (Bool.and_eq_true_iff.1 hopen).2
  have hopener : d.blockOpen ≠ [] := by simpa using (Bool.and_eq_true_iff.1 hopen).1
  rw [List.drop_left] at hpast
  refine pending_of_opener hd .comment hnest hheader _ hfresh hopener hpast fun ext hext => ?_
  have hdrop : (d.blockOpen ++ inner ++ ext).drop d.blockOpen.length = inner ++ ext := by
    rw [List.append_assoc, List.drop_left]
  rw [freshStep, standsAt_append hd.lineComment hext.atBlank, hline, if_neg Bool.false_ne_true,
    standsAt_append hd.blockOpen hext.atBlank, hopen, if_pos rfl, ← hdrop]
  rfl

theorem pending_of_string (hd : d.Breakable) (hnest : Nest ctx.state.stack)
    (hheader : ctx.header = .absent) (hfresh : Fresh ctx u)
    (hline : standsAt d.lineComment u = false) (hblock : standsAt d.blockOpen u = false)
    (hquote : u.head? = some d.quote) (hpast : past? [d.quote] (u.drop 1) = none) :
    d.Pending ctx u .string .string [d.quote] ctx.state [] u := by
  obtain ⟨inner, rfl⟩ := List.head?_eq_some_iff.1 hquote
  refine pending_of_opener hd .string hnest hheader [d.quote] hfresh
    (List.cons_ne_nil _ _) hpast fun ext hext => ?_
  have hline' := standsAt_append (u := d.quote :: inner) hd.lineComment hext.atBlank
  have hblock' := standsAt_append (u := d.quote :: inner) hd.blockOpen hext.atBlank
  rw [hline] at hline'
  rw [hblock] at hblock'
  show d.freshStep ctx (d.quote :: inner ++ ext) = _
  rw [freshStep, hline', if_neg Bool.false_ne_true, hblock', if_neg Bool.false_ne_true,
    if_pos (show (d.quote :: inner ++ ext).head? = some d.quote from rfl), stringStep,
    Context.markQuoted_of_absent hheader]
  rfl

/-! ## The step that opens the literal -/

/-- A rule opens no literal. -/
theorem ruleStep_not_literal (hd : d.EntersConstructs) (hnoted : Noted ctx.state.stack) {r : Rule}
    {n : Nat} (hr : r ∈ d.rules) : ¬ (ruleStep ctx u r n).next.state.mode.IsLiteral := by
  have hcolor : ctx.state.mode ≠ .color := Layered.mode_ne_color (Or.inl hnoted)
  have henters := hd r hr
  unfold ruleStep
  simp only [state_readMatch hcolor]
  cases he : r.effect with
  | none => exact hnoted.not_literal
  | exit m => exact hnoted.not_literal
  | enter m =>
    rw [he] at henters
    have hnormal : m ≠ .normal := by rcases henters with rfl | rfl | rfl <;> exact Mode.noConfusion
    have hmode : (ctx.state.enter m).mode = m :=
      ScanState.mode_enter hnormal
    show ¬ (ctx.state.enter m).mode.IsLiteral
    rw [hmode]
    rcases henters with rfl | rfl | rfl <;> rintro (hm | hm) <;> cases hm

/-- **Only an opening marker opens a literal**, and only if the literal does not end on the
line. -/
theorem opener_of_reads (hd : d.EntersConstructs) (hnoted : Noted ctx.state.stack) {st : Step}
    (hs : Reads d ctx u st) (hlit : st.next.state.mode.IsLiteral) :
    Fresh ctx u ∧ standsAt d.lineComment u = false
      ∧ (standsAt d.blockOpen u = true
          ∧ past? d.blockClose (u.drop d.blockOpen.length) = none
        ∨ standsAt d.blockOpen u = false ∧ u.head? = some d.quote
          ∧ past? [d.quote] (u.drop 1) = none) := by
  cases hs with
  | freeText _ => exact absurd hlit hnoted.not_literal
  | blank _ _ => exact absurd hlit hnoted.not_literal
  | openComment _ _ hm => exact absurd (Or.inl hm) hnoted.not_literal
  | openString _ _ hm => exact absurd (Or.inr hm) hnoted.not_literal
  | noteCloser =>
    rw [closerStep_state] at hlit
    exact absurd hlit (hnoted.exit _).not_literal
  | noteText => exact absurd hlit hnoted.not_literal
  | lineComment => exact absurd hlit hnoted.not_literal
  | blockComment hfresh hline hblock =>
    refine ⟨hfresh, hline, Or.inl ⟨hblock, ?_⟩⟩
    unfold commentStep at hlit
    split at hlit
    · exact absurd hlit hnoted.not_literal
    · next hnone => exact hnone
  | string hfresh hline hblock hquote =>
    refine ⟨hfresh, hline, Or.inr ⟨hblock, hquote, ?_⟩⟩
    unfold stringStep at hlit
    split at hlit
    · exact absurd hlit hnoted.not_literal
    · next hnone => exact hnone
  | colon => exact absurd hlit (hnoted.exit .note).not_literal
  | closer =>
    rw [closerStep_state] at hlit
    exact absurd hlit (hnoted.exit _).not_literal
  | rule _ _ hr => exact absurd hlit (ruleStep_not_literal hd hnoted (rule?_spec hr).1)
  | word => exact absurd hlit hnoted.not_literal

/-- **Where no note is opened no header is read.** -/
theorem header_of_reads (hd : d.Breakable) (hheader : ctx.header = .absent) {st : Step}
    (hs : Reads d ctx u st) (hopens : ¬ d.OpensNote ⟨st.kind, u.take st.length⟩) :
    st.next.header = .absent := by
  have hcloser : ∀ c, (closerStep ctx c).next.header = .absent := fun c => by
    unfold closerStep
    split
    · dsimp only
      split
      · rfl
      · exact hheader
    · exact hheader
  have hcontinue : ∀ m kind closer, (continueStep ctx u m kind closer).next.header = .absent :=
    fun m kind closer => by
      unfold continueStep
      split <;> exact hheader
  cases hs with
  | freeText _ => exact hheader
  | blank _ _ => exact hheader
  | openComment => exact hcontinue _ _ _
  | openString => exact hcontinue _ _ _
  | noteCloser => exact hcloser _
  | noteText => exact hheader
  | lineComment => exact hheader
  | blockComment =>
    unfold commentStep
    split
    · exact hheader
    · rw [unclosedStep, Context.settle_of_absent hheader]
      exact hheader
  | string =>
    unfold stringStep
    split
    · rw [Context.markQuoted_of_absent hheader]
      exact hheader
    · rw [unclosedStep, Context.settle_of_absent hheader]
      exact hheader
  | colon => rfl
  | closer => exact hcloser _
  | @rule _ _ r n hr =>
    obtain ⟨hmem, hn, -⟩ := rule?_spec hr
    by_cases heffect : r.effect = .enter .note
    · -- the token would be a keyword that opens a note
      obtain ⟨hkind, hextent, hspelled⟩ := hd.notes r hmem heffect
      have hcolor : r.pattern ≠ .color := fun hp => by
        rw [hp] at hspelled
        exact hspelled
      have hlength : (ruleStep ctx u r n).length = n := by
        show reach r.extent (readMatch ctx u r n).2 u = n
        simp [hextent, hcolor, reach]
      refine absurd ⟨hkind, r, hmem, heffect, ?_⟩ hopens
      rw [hlength]
      exact Pattern.squeeze_take_mem_spellings hspelled (Option.filter_eq_some_iff.1 hn).1
    · unfold ruleStep
      cases he : r.effect with
      | none => exact hheader
      | exit m => exact hheader
      | enter m =>
        have hm : m ≠ .note := fun hm => heffect (hm ▸ he)
        simp [hm, hheader]
  | word => exact hheader

/-- **A scan that ends inside a literal is pending**, and there is a mark ahead of it: that
of the literal. -/
theorem exists_pending (hd : d.Breakable) (ctx : Context) (u : List Char)
    (hnoted : Noted ctx.state.stack) (hheader : ctx.header = .absent)
    (hopeners : ∀ l ∈ (d.scanRest ctx u).1, ¬ d.OpensNote l)
    (hlit : (d.endState ctx u).mode.IsLiteral) :
    Marked d.marks u ∧ ∃ m kind marker s ls a, d.Pending ctx u m kind marker s ls a := by
  induction ctx, u using d.scan_induction with
  | atEnd ctx =>
    rw [endState_nil, Context.settle_of_absent hheader] at hlit
    exact absurd hlit hnoted.not_literal
  | token ctx u hne ih =>
    have hreads := d.step_reads ctx u
    have hinHeader : ctx.inHeader = false := Context.inHeader_of_absent hheader
    rw [scanRest_of_ne_nil d ctx hne] at hopeners
    obtain ⟨hopens, hopeners⟩ := List.forall_mem_cons.1 hopeners
    by_cases hopened : (d.step ctx u).next.state.mode.IsLiteral
    · -- the literal is opened here
      obtain ⟨hfresh, hline, hmarker⟩ := opener_of_reads hd.enters hnoted hreads hopened
      have hnest : Nest ctx.state.stack := hnoted.nest fun hnote =>
        Bool.noConfusion (hinHeader.symm.trans (hfresh.note hnote))
      rcases hmarker with ⟨hblock, hpast⟩ | ⟨hblock, hquote, hpast⟩
      · obtain ⟨hopener, hpre⟩ := Bool.and_eq_true_iff.1 hblock
        have hne : d.blockOpen ≠ [] := by simpa using hopener
        obtain ⟨c, more, hc⟩ := List.exists_cons_of_ne_nil hne
        have hmem : c ∈ d.blockOpen := hc ▸ List.mem_cons_self
        exact ⟨⟨c, (List.isPrefixOf_iff_prefix.1 hpre).subset hmem, List.mem_cons_of_mem _ hmem⟩,
          _, _, _, _, _, _, pending_of_comment hd hnest hheader hfresh hline hblock hpast⟩
      · exact ⟨⟨d.quote, List.mem_of_mem_head? hquote, List.mem_cons_self⟩,
          _, _, _, _, _, _, pending_of_string hd hnest hheader hfresh hline hblock hquote hpast⟩
    · -- it is opened further on, and this step stays as it is
      have hsound : Sound ctx u := .outside (Or.inl hnoted) hinHeader u
      have hafter : Noted (d.contextAfter ctx u).state.stack :=
        (sound_of_reads hd.enters hsound hne hreads).layered.noted
          (fun hm => hopened (Or.inl hm)) (fun hm => hopened (Or.inr hm))
      rw [endState_of_ne_nil hne] at hlit
      obtain ⟨hmarked, m, kind, marker, s, ls, a, hpending⟩ :=
        ih hafter (header_of_reads hd hheader hreads hopens) hopeners hlit
      have hu : Marked d.marks u := hmarked.of_suffix (List.drop_suffix _ _)
      refine ⟨hu, m, kind, marker, s, _, a, hpending.cons hne fun ext hext => ?_⟩
      have hgrows := step_grows (overlooked_of_marked hd.toStopsAtMarks hext hu) hne ctx
      refine hgrows.length_or_eq.resolve_left fun hall => hmarked.ne_nil ?_
      rw [restAfter, hall, List.drop_length]

theorem exists_literal (d : Dialect) (hm : m.IsLiteral) :
    ∃ kind marker, d.Literal m kind marker := by
  rcases hm with rfl | rfl
  · exact ⟨_, _, .comment⟩
  · exact ⟨_, _, .string⟩

/-- A literal is open at the start of the line and does not end on it. -/
theorem pending_of_open (hd : d.Breakable) (h : d.Literal m kind marker) (hne : u ≠ [])
    (hflush : u.head?.any isBlank = false) (hpast : past? marker u = none) (below : List Mode) :
    d.Pending { state := ⟨m :: below⟩ } u m kind marker ⟨below⟩ [] u := by
  refine ⟨h, fun ext hext => ?_⟩
  have hsolid := h.solid hd.toTight
  have hflush' : (u ++ ext).head?.any isBlank = false := by
    rw [List.head?_append_of_ne_nil _ hne, hflush]
  rw [scanRest_of_open h (fun he => hne (List.append_eq_nil_iff.1 he).1) hflush' below,
    resume_append (past?_append_of_atGap hsolid ((past?_eq_none_iff hsolid.1).1 hpast) hext)]
  rfl

/-- It ends on the line, and does so in the same place on a longer line. -/
theorem step_of_literal_closed (h : d.Literal m kind marker) (hne : u ≠ [])
    (hflush : u.head?.any isBlank = false) {n : Nat} (hpast : past? marker u = some n)
    (below : List Mode) (ext : List Char) :
    d.step { state := ⟨m :: below⟩ } (u ++ ext) = ⟨kind, n, { state := ⟨below⟩ }⟩ := by
  have hflush' : (u ++ ext).head?.any isBlank = false := by
    rw [List.head?_append_of_ne_nil _ hne, hflush]
  simp [step_of_literal h hflush', continueStep, past?_append_right hpast, Context.exit]

/-- **So is the scan of a line that ends inside a literal**, at the start of which another
may have been open. -/
theorem exists_pending_of_layered (hd : d.Breakable) {s₀ : ScanState} (hs : Layered s₀.stack)
    (hne : u ≠ []) (hflush : u.head?.any isBlank = false)
    (hopeners : ∀ l ∈ (d.scanRest { state := s₀ } u).1, ¬ d.OpensNote l)
    (hlit : (d.endState { state := s₀ } u).mode.IsLiteral) :
    ∃ m kind marker s ls a, d.Pending { state := s₀ } u m kind marker s ls a := by
  rcases hs with hnoted | ⟨m, below, hm, hbelow, hstack⟩
  · exact (exists_pending hd _ u hnoted rfl hopeners hlit).2
  · obtain ⟨stack⟩ := s₀
    cases hstack
    obtain ⟨kind, marker, h⟩ := exists_literal d hm
    cases hpast : past? marker u with
    | none => exact ⟨_, _, _, _, _, _, pending_of_open hd h hne hflush hpast below⟩
    | some n =>
      -- another one is opened behind it
      have hstep := step_of_literal_closed h hne hflush hpast below
      have hstep₀ := hstep []
      rw [List.append_nil] at hstep₀
      have hafter : d.contextAfter { state := ⟨m :: below⟩ } u
          = { state := ⟨below⟩, atStart := false } := by
        rw [contextAfter, hstep₀]
      rw [scanRest_of_ne_nil d _ hne] at hopeners
      rw [endState_of_ne_nil hne] at hlit
      obtain ⟨-, m', kind', marker', s, ls, a, hpending⟩ := exists_pending hd _ _
        (by rw [hafter]; exact hbelow) (by rw [hafter]) (List.forall_mem_cons.1 hopeners).2 hlit
      exact ⟨m', kind', marker', s, _, a,
        hpending.cons hne fun ext _ => (hstep ext).trans hstep₀.symm⟩

/-! ## Lines -/

/-- **How a line is read that is broken inside a literal**: what comes before the literal
is read as on the first part, and `p` belongs to the literal, from its start on the line to
the first character of the second part that is not blank. From there on the literal is
read as on the second part. -/
structure Broken (d : Dialect) (s₀ : ScanState) (l₁ l₂ : List Char) (m : Mode) (kind : Kind)
    (marker : List Char) (s : ScanState) (ls : List Lexeme) (p : List Char) : Prop where
  state : (d.scanLine s₀ l₁).stateAfter = ⟨m :: s.stack⟩
  tokens : (d.scanLine s₀ l₁).tokens.dropLast
    = layout ((l₁ ++ ' ' :: l₂).takeWhile isBlank).length ls
  column : ((l₁ ++ ' ' :: l₂).takeWhile isBlank).length + (ls.flatMap Lexeme.text).length
    + p.length = (l₂.takeWhile isBlank).length + (l₁.length + 1)
  scan : l₂.dropWhile isBlank ≠ [] →
    d.scanRest { state := s₀ } ((l₁ ++ ' ' :: l₂).dropWhile isBlank)
      = (ls ++ (d.resume s m kind marker p (l₂.dropWhile isBlank)).1,
        (d.resume s m kind marker p (l₂.dropWhile isBlank)).2)
  blank : l₂.dropWhile isBlank = [] →
    (∃ last, last.length ≤ 1 ∧ (d.scanLine s₀ (l₁ ++ ' ' :: l₂)).lexemes = ls ++ last)
      ∧ (d.scanLine s₀ (l₁ ++ ' ' :: l₂)).stateAfter = ⟨m :: s.stack⟩

section

variable {l₁ l₂ : List Char} {s₀ : ScanState}

theorem stack_of_mode (h : m.IsLiteral) (hmode : s₀.mode = m) : ∃ below, s₀ = ⟨m :: below⟩ := by
  obtain ⟨stack⟩ := s₀
  cases stack with
  | nil =>
    rcases h with rfl | rfl <;> cases hmode
  | cons top below =>
    cases hmode
    exact ⟨below, rfl⟩

theorem Literal.unique {kind' : Kind} {marker' : List Char} (h : d.Literal m kind marker)
    (h' : d.Literal m kind' marker') : kind' = kind ∧ marker' = marker := by
  cases h <;> cases h' <;> exact ⟨rfl, rfl⟩

/-- The first part is blank, and the literal was open before. -/
theorem broken_of_blank (h : d.Literal m kind marker) (hblank : Blank l₁) (below : List Mode) :
    d.Broken ⟨m :: below⟩ l₁ l₂ m kind marker ⟨below⟩ [] [] := by
  have hdrop : l₁.dropWhile isBlank = [] := List.dropWhile_eq_nil_iff.2 hblank
  have htake : l₁.takeWhile isBlank = l₁ := List.takeWhile_eq_self_iff.2 hblank
  have hspace : (' ' :: l₂).takeWhile isBlank = ' ' :: l₂.takeWhile isBlank := rfl
  have hrest : (l₁ ++ ' ' :: l₂).dropWhile isBlank = l₂.dropWhile isBlank := by
    rw [List.dropWhile_append_of_pos hblank]
    rfl
  have hindent : ((l₁ ++ ' ' :: l₂).takeWhile isBlank).length
      = (l₂.takeWhile isBlank).length + (l₁.length + 1) := by
    rw [List.takeWhile_append_of_pos hblank, hspace, List.length_append, List.length_cons]
    omega
  have hfirst : d.scanRest { state := ⟨m :: below⟩ } (l₁.dropWhile isBlank)
      = ([], { state := ⟨m :: below⟩ }) := by rw [hdrop, scanRest_nil]
  refine ⟨?_, ?_, ?_, fun hne => ?_, fun hnil => ⟨⟨[], Nat.zero_le 1, ?_⟩, ?_⟩⟩
  · show (d.scanRest _ (l₁.dropWhile isBlank)).2.settle.state = _
    rw [hfirst]
    rfl
  · show (layout _ (d.scanRest _ (l₁.dropWhile isBlank)).1).dropLast = _
    rw [hfirst]
    rfl
  · rw [hindent]
    rfl
  · rw [hrest, scanRest_of_open h hne (any_head?_dropWhile l₂) below]
    rfl
  · show (d.scanRest _ ((l₁ ++ ' ' :: l₂).dropWhile isBlank)).1 = _
    simp [hrest, hnil]
  · show (d.scanRest _ ((l₁ ++ ' ' :: l₂).dropWhile isBlank)).2.settle.state = _
    simp [hrest, hnil]

@[simp] theorem past?_nil (hmarker : Solid marker) : past? marker [] = none :=
  (past?_eq_none_iff hmarker.1).2 fun h => hmarker.1 (List.infix_nil.1 h)

/-- The first part is not blank, and what has been read of it is as before. -/
theorem broken_of_pending (hd : d.Breakable) (l₂ : List Char) (hne : l₁.dropWhile isBlank ≠ [])
    (h : d.Pending { state := s₀ } (l₁.dropWhile isBlank) m kind marker s ls a) :
    d.Broken s₀ l₁ l₂ m kind marker s ls (a ++ ' ' :: l₂.takeWhile isBlank) := by
  have hsolid := h.literal.solid hd.toTight
  have hfirst : d.scanRest { state := s₀ } (l₁.dropWhile isBlank)
      = (ls ++ [⟨kind, a⟩], { state := ⟨m :: s.stack⟩, atStart := false }) := by
    have h₀ := h.scan [] atGap_nil
    rwa [List.append_nil, resume_of_none (past?_nil hsolid), List.append_nil] at h₀
  have hlength : (ls.flatMap Lexeme.text).length + a.length = (l₁.dropWhile isBlank).length := by
    have htext := flatMap_text_scanRest d { state := s₀ } (l₁.dropWhile isBlank)
    rw [hfirst] at htext
    rw [← htext]
    simp
  have hlen₁ := length_indent_add l₁
  have hblank : Blank (' ' :: l₂.takeWhile isBlank) :=
    List.forall_mem_cons.2 ⟨rfl, fun c hc => List.mem_takeWhile_imp hc⟩
  have hline : d.scanRest { state := s₀ } ((l₁ ++ ' ' :: l₂).dropWhile isBlank)
      = (ls ++ (d.resume s m kind marker (a ++ ' ' :: l₂.takeWhile isBlank)
          (l₂.dropWhile isBlank)).1,
        (d.resume s m kind marker (a ++ ' ' :: l₂.takeWhile isBlank)
          (l₂.dropWhile isBlank)).2) := by
    have hsplit : ' ' :: l₂ = ' ' :: l₂.takeWhile isBlank ++ l₂.dropWhile isBlank := by
      rw [List.cons_append, List.takeWhile_append_dropWhile]
    rw [dropWhile_append_of_ne_nil hne, h.scan _ (atGap_space l₂), hsplit,
      resume_append (past?_append_of_blank hsolid hblank _)]
  refine ⟨?_, ?_, ?_, fun _ => hline, fun hnil =>
    ⟨⟨[⟨kind, a ++ ' ' :: l₂.takeWhile isBlank ++ []⟩], Nat.le_refl 1, ?_⟩, ?_⟩⟩
  · show (d.scanRest _ (l₁.dropWhile isBlank)).2.settle.state = _
    rw [hfirst]
    rfl
  · show (layout _ (d.scanRest _ (l₁.dropWhile isBlank)).1).dropLast = _
    rw [hfirst, layout_append, takeWhile_append_of_ne_nil hne]
    exact List.dropLast_concat
  · rw [takeWhile_append_of_ne_nil hne, List.length_append, List.length_cons]
    omega
  · show (d.scanRest _ ((l₁ ++ ' ' :: l₂).dropWhile isBlank)).1 = _
    rw [hline, hnil, resume_of_none (past?_nil hsolid)]
  · show (d.scanRest _ ((l₁ ++ ' ' :: l₂).dropWhile isBlank)).2.settle.state = _
    rw [hline, hnil, resume_of_none (past?_nil hsolid)]
    rfl

/-- A line that ends inside a literal may be broken there. -/
theorem exists_broken (hd : d.Breakable) (hs : Layered s₀.stack) (h : d.Literal m kind marker)
    (hmode : (d.scanLine s₀ l₁).stateAfter.mode = m)
    (hopeners : ∀ l ∈ (d.scanLine s₀ l₁).lexemes, ¬ d.OpensNote l) (l₂ : List Char) :
    ∃ s ls p, d.Broken s₀ l₁ l₂ m kind marker s ls p := by
  by_cases hne : l₁.dropWhile isBlank = []
  · have hstate : (d.scanLine s₀ l₁).stateAfter = s₀ := by
      show (d.scanRest _ (l₁.dropWhile isBlank)).2.settle.state = _
      simp [hne]
    obtain ⟨below, rfl⟩ := stack_of_mode h.isLiteral (hstate ▸ hmode)
    exact ⟨_, _, _, broken_of_blank h (List.dropWhile_eq_nil_iff.1 hne) below⟩
  · have hlit : (d.endState { state := s₀ } (l₁.dropWhile isBlank)).mode.IsLiteral := by
      show (d.scanLine s₀ l₁).stateAfter.mode.IsLiteral
      rw [hmode]
      exact h.isLiteral
    obtain ⟨m', kind', marker', s, ls, a, hpending⟩ :=
      exists_pending_of_layered hd hs hne (any_head?_dropWhile l₁) hopeners hlit
    have hbroken := broken_of_pending hd l₂ hne hpending
    have hm : m' = m := by
      rw [← hmode, hbroken.state]
      rfl
    subst hm
    obtain ⟨rfl, rfl⟩ := h.unique hpending.literal
    exact ⟨s, ls, _, hbroken⟩

/-! ## The two ways to read the line -/

/-- **The line reads as if it were broken**: what is open behind it is the same, and the
literal that is open at the break ends at the same place, with the same tokens behind it,
as many columns further on as the first part and the space are long. Where the second part
does not end the literal nothing comes behind it. -/
structure ReadsAsBroken (d : Dialect) (s₀ : ScanState) (l₁ l₂ : List Char) (kind : Kind)
    (marker : List Char) : Prop where
  stateAfter : (d.scanLine s₀ (l₁ ++ ' ' :: l₂)).stateAfter
    = (d.scanLine (d.scanLine s₀ l₁).stateAfter l₂).stateAfter
  closed : ∀ stop, past? marker l₂ = some stop → ∃ start start' behind,
    (d.scanLine (d.scanLine s₀ l₁).stateAfter l₂).tokens = ⟨kind, ⟨start, stop⟩⟩ :: behind
    ∧ (d.scanLine s₀ (l₁ ++ ' ' :: l₂)).tokens = (d.scanLine s₀ l₁).tokens.dropLast
      ++ ⟨kind, ⟨start', stop + (l₁.length + 1)⟩⟩ :: behind.map (Token.shift (l₁.length + 1))
  unclosed : past? marker l₂ = none →
    (d.scanLine (d.scanLine s₀ l₁).stateAfter l₂).tokens.length ≤ 1
    ∧ ∃ last, last.length ≤ 1
      ∧ (d.scanLine s₀ (l₁ ++ ' ' :: l₂)).tokens = (d.scanLine s₀ l₁).tokens.dropLast ++ last

section

variable {ls : List Lexeme} {p : List Char}

/-- The second part goes on with the literal at its first character that is not blank. -/
theorem Broken.scanRest_second (h : d.Literal m kind marker)
    (hb : d.Broken s₀ l₁ l₂ m kind marker s ls p) (hne : l₂.dropWhile isBlank ≠ []) :
    d.scanRest { state := (d.scanLine s₀ l₁).stateAfter } (l₂.dropWhile isBlank)
      = d.resume s m kind marker [] (l₂.dropWhile isBlank) := by
  rw [hb.state]
  exact scanRest_of_open h hne (any_head?_dropWhile l₂) s.stack

/-- The literal goes on to the end of a second part that is blank. -/
theorem Broken.readsAsBroken_of_blank (hb : d.Broken s₀ l₁ l₂ m kind marker s ls p)
    (hnil : l₂.dropWhile isBlank = []) (hpast : past? marker l₂ = none) :
    d.ReadsAsBroken s₀ l₁ l₂ kind marker := by
  obtain ⟨⟨last, hlast, hlexemes⟩, hstate⟩ := hb.blank hnil
  have hsecond : d.scanRest { state := (d.scanLine s₀ l₁).stateAfter } (l₂.dropWhile isBlank)
      = ([], { state := (d.scanLine s₀ l₁).stateAfter }) := by
    simp [hnil]
  refine ⟨?_, fun stop hstop => ?_, fun _ => ⟨?_, layout (((l₁ ++ ' ' :: l₂).takeWhile
    isBlank).length + (ls.flatMap Lexeme.text).length) last, ?_, ?_⟩⟩
  · show _ = (d.scanRest _ (l₂.dropWhile isBlank)).2.settle.state
    rw [hstate, hsecond, hb.state]
    rfl
  · rw [hpast] at hstop
    cases hstop
  · show (layout _ (d.scanRest _ (l₂.dropWhile isBlank)).1).length ≤ 1
    rw [hsecond]
    exact Nat.zero_le 1
  · rwa [length_layout]
  · rw [hb.tokens, ← layout_append, ← hlexemes]
    rfl

/-- So it does if the marker does not stand in the second part. -/
theorem Broken.readsAsBroken_of_unclosed (h : d.Literal m kind marker)
    (hb : d.Broken s₀ l₁ l₂ m kind marker s ls p) (hne : l₂.dropWhile isBlank ≠ [])
    (hn : past? marker (l₂.dropWhile isBlank) = none) (hpast : past? marker l₂ = none) :
    d.ReadsAsBroken s₀ l₁ l₂ kind marker := by
  have hline := hb.scan hne
  have hsecond := hb.scanRest_second h hne
  rw [resume_of_none hn] at hline hsecond
  refine ⟨?_, fun stop hstop => ?_, fun _ => ⟨?_, layout (((l₁ ++ ' ' :: l₂).takeWhile
    isBlank).length + (ls.flatMap Lexeme.text).length) [⟨kind, p ++ l₂.dropWhile isBlank⟩],
    Nat.le_refl 1, ?_⟩⟩
  · show (d.scanRest _ ((l₁ ++ ' ' :: l₂).dropWhile isBlank)).2.settle.state
      = (d.scanRest _ (l₂.dropWhile isBlank)).2.settle.state
    rw [hline, hsecond]
  · rw [hpast] at hstop
    cases hstop
  · show (layout _ (d.scanRest _ (l₂.dropWhile isBlank)).1).length ≤ 1
    rw [hsecond]
    exact Nat.le_refl 1
  · show layout _ (d.scanRest _ ((l₁ ++ ' ' :: l₂).dropWhile isBlank)).1 = _
    rw [hline, hb.tokens, layout_append]
    rfl

/-- Otherwise it ends where the marker does, and what comes behind is read alike. -/
theorem Broken.readsAsBroken_of_closed (h : d.Literal m kind marker)
    (hb : d.Broken s₀ l₁ l₂ m kind marker s ls p) (hne : l₂.dropWhile isBlank ≠ []) {n : Nat}
    (hn : past? marker (l₂.dropWhile isBlank) = some n)
    (hpast : past? marker l₂ = some ((l₂.takeWhile isBlank).length + n)) :
    d.ReadsAsBroken s₀ l₁ l₂ kind marker := by
  have hline := hb.scan hne
  have hsecond := hb.scanRest_second h hne
  rw [resume_of_some hn] at hline hsecond
  have htake : ((l₂.dropWhile isBlank).take n).length = n :=
    List.length_take_of_le (past?_bounds hn).2
  refine ⟨?_, fun stop hstop => ?_, fun hnone => ?_⟩
  · show (d.scanRest _ ((l₁ ++ ' ' :: l₂).dropWhile isBlank)).2.settle.state
      = (d.scanRest _ (l₂.dropWhile isBlank)).2.settle.state
    rw [hline, hsecond]
  · rw [hpast] at hstop
    cases hstop
    have htokens : (d.scanLine (d.scanLine s₀ l₁).stateAfter l₂).tokens
        = ⟨kind, ⟨(l₂.takeWhile isBlank).length, (l₂.takeWhile isBlank).length + n⟩⟩
          :: layout ((l₂.takeWhile isBlank).length + n)
            (d.scanRest { state := s, atStart := false } ((l₂.dropWhile isBlank).drop n)).1 := by
      show layout _ (d.scanRest _ (l₂.dropWhile isBlank)).1 = _
      rw [hsecond, layout, List.nil_append, htake]
      rfl
    have hend : ((l₁ ++ ' ' :: l₂).takeWhile isBlank).length
        + (ls.flatMap Lexeme.text).length + (p ++ (l₂.dropWhile isBlank).take n).length
        = (l₂.takeWhile isBlank).length + n + (l₁.length + 1) := by
      have hcolumn := hb.column
      rw [List.length_append, htake]
      omega
    refine ⟨_, ((l₁ ++ ' ' :: l₂).takeWhile isBlank).length + (ls.flatMap Lexeme.text).length,
      _, htokens, ?_⟩
    show layout ((l₁ ++ ' ' :: l₂).takeWhile isBlank).length
      (d.scanRest _ ((l₁ ++ ' ' :: l₂).dropWhile isBlank)).1 = _
    rw [hline, hb.tokens, layout_append, layout, hend, layout_add]
  · rw [hpast] at hnone
    cases hnone

theorem Broken.readsAsBroken (hd : d.Breakable) (h : d.Literal m kind marker)
    (hb : d.Broken s₀ l₁ l₂ m kind marker s ls p) : d.ReadsAsBroken s₀ l₁ l₂ kind marker := by
  have hsolid := h.solid hd.toTight
  -- the marker does not begin in the indentation of the second part
  have hpast : past? marker l₂
      = (past? marker (l₂.dropWhile isBlank)).map ((l₂.takeWhile isBlank).length + ·) := by
    have happend := past?_append_of_blank hsolid (u := l₂.takeWhile isBlank)
      (fun c hc => List.mem_takeWhile_imp hc) (l₂.dropWhile isBlank)
    rwa [List.takeWhile_append_dropWhile] at happend
  by_cases hne : l₂.dropWhile isBlank = []
  · rw [hne, past?_nil hsolid] at hpast
    exact hb.readsAsBroken_of_blank hne hpast
  · cases hn : past? marker (l₂.dropWhile isBlank) with
    | none =>
      rw [hn] at hpast
      exact hb.readsAsBroken_of_unclosed h hne hn hpast
    | some n =>
      rw [hn] at hpast
      exact hb.readsAsBroken_of_closed h hne hn hpast

end

end

/-- **Breaking a line inside a literal changes nothing**, in sequence, class and object
diagrams, whatever the document has opened before. If the first part ends inside a comment
or a string and opens no note, then the line with both parts, a space between them, reads
as if it were broken there. -/
theorem line_break_in_literal :
    ∀ d ∈ [sequence, classDiagram, object], ∀ (lines : List (List Char)) (l₁ l₂ : List Char)
      (m : Mode) (kind : Kind) (marker : List Char), d.Literal m kind marker →
      (d.scanLine (d.stateAfter .initial lines) l₁).stateAfter.mode = m →
      (∀ l ∈ (d.scanLine (d.stateAfter .initial lines) l₁).lexemes, ¬ d.OpensNote l) →
      d.ReadsAsBroken (d.stateAfter .initial lines) l₁ l₂ kind marker := by
  intro d hmem lines l₁ l₂ m kind marker h hmode hopeners
  have hd := breakable d hmem
  have hinit : Layered ScanState.initial.stack := Or.inl (Or.inl nest_nil)
  obtain ⟨s, ls, p, hbroken⟩ :=
    exists_broken hd (layered_stateAfter hd.enters hinit lines) h hmode hopeners l₂
  exact hbroken.readsAsBroken hd h

/-- Inside a group a message breaks off in a string, and the second line ends the string and
the group. -/
theorem line_break_in_literal_of_string :
    sequence ∈ [sequence, classDiagram, object]
    ∧ (sequence.scanLine (sequence.stateAfter .initial ["alt x".toList])
        "A -> \"b".toList).stateAfter.mode = .string
    ∧ (∀ l ∈ (sequence.scanLine (sequence.stateAfter .initial ["alt x".toList])
        "A -> \"b".toList).lexemes, ¬ sequence.OpensNote l)
    ∧ past? [sequence.quote] " c\" end".toList = some 3
    ∧ sequence.ReadsAsBroken (sequence.stateAfter .initial ["alt x".toList])
        "A -> \"b".toList " c\" end".toList .string [sequence.quote] := by
  have hmem : sequence ∈ [sequence, classDiagram, object] := List.mem_cons_self
  have hmode : (sequence.scanLine (sequence.stateAfter .initial ["alt x".toList])
      "A -> \"b".toList).stateAfter.mode = .string := by
    decide +kernel
  have hopeners : ∀ l ∈ (sequence.scanLine (sequence.stateAfter .initial ["alt x".toList])
      "A -> \"b".toList).lexemes, ¬ sequence.OpensNote l := by
    decide +kernel
  exact ⟨hmem, hmode, hopeners, by decide +kernel,
    line_break_in_literal sequence hmem _ _ _ _ _ _ .string hmode hopeners⟩

end

end Dialect

end UmlMarkup
