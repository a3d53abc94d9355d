import UmlMarkup.Proofs.Scan.LeadingComment
import UmlMarkup.Proofs.Scan.WholeWords

/-!
# Where an `end` stands alone

In a sequence diagram a group is closed by the word `end`, which begins other keywords as
well: `end note`, `end box`, `end ref`. So it closes a group only where it stands alone,
with nothing but blanks and comments behind it (`OnlyTrivia`).

What the scanner looks at is the first thing behind the word. If that is a comment, it does
not look for the end of it, and an `end` with code behind a comment closes its group as
well. This is the one difference (`bare_end_closes_iff`): behind a complete comment anything
may stand.
-/

namespace UmlMarkup

namespace Dialect

/-! ## Blanks and comments -/

/-- **Nothing but blanks and comments**: complete block comments and, at the end, a line
comment or a block comment that stays open. -/
inductive OnlyTrivia (d : Dialect) : List Char → Prop
  | blank {text : List Char} (h : Blank text) : OnlyTrivia d text
  | lineComment {gap : List Char} (hgap : Blank gap) (text : List Char) :
    OnlyTrivia d (gap ++ (d.lineComment ++ text))
  | unclosed {gap text : List Char} (hgap : Blank gap)
    (h : StaysOpen d.blockOpen d.blockClose text) : OnlyTrivia d (gap ++ text)
  | comment {gap c rest : List Char} (hgap : Blank gap)
    (h : Closed d.blockOpen d.blockClose c) (hrest : OnlyTrivia d rest) :
    OnlyTrivia d (gap ++ (c ++ rest))

/-- A complete comment is the first thing in the text, and something else than blanks and
comments stands behind it. -/
def CodeBehindComment (d : Dialect) (text : List Char) : Prop :=
  ∃ gap c rest, text = gap ++ (c ++ rest) ∧ Blank gap ∧ Closed d.blockOpen d.blockClose c
    ∧ ¬ d.OnlyTrivia rest

variable {d : Dialect} {gap text : List Char}

theorem flush_of_staysOpen (hd : d ∈ builtin) (h : StaysOpen d.blockOpen d.blockClose text) :
    Flush text := by
  obtain ⟨inner, rfl, -⟩ := h
  exact (builtin_flush_markers d hd).2.append inner

theorem isTrivia_of_flush (hgap : Blank gap) (h : Flush text) :
    d.isTrivia (gap ++ text) = (standsAt d.lineComment text || standsAt d.blockOpen text) := by
  have hne : text.isEmpty = false := by simpa using h.ne_nil
  simp [isTrivia, h, hgap, hne]

theorem isTrivia_of_lineComment (hd : d ∈ builtin) (hgap : Blank gap)
    (h : d.lineComment <+: text) : d.isTrivia (gap ++ text) = true := by
  have hflush := (builtin_flush_markers d hd).1
  obtain ⟨behind, rfl⟩ := h
  rw [isTrivia_of_flush hgap (hflush.append behind),
    standsAt_of_begins hflush.ne_nil (List.prefix_append _ behind), Bool.true_or]

theorem isTrivia_of_comment (hd : d ∈ builtin) (hgap : Blank gap) (h : d.blockOpen <+: text) :
    d.isTrivia (gap ++ text) = true := by
  have hflush := (builtin_flush_markers d hd).2
  obtain ⟨inner, rfl⟩ := h
  rw [isTrivia_of_flush hgap (hflush.append inner),
    standsAt_of_begins hflush.ne_nil (List.prefix_append _ inner), Bool.or_true]

/-- **What the scanner takes for trivia** are blanks and comments, but for what stands
behind the first comment. -/
theorem isTrivia_iff (hd : d ∈ builtin) :
    d.isTrivia text = true ↔ d.OnlyTrivia text ∨ d.CodeBehindComment text := by
  constructor
  · intro h
    have hgap := blank_takeWhile text
    have hsplit : text = text.takeWhile isBlank ++ text.dropWhile isBlank :=
      List.takeWhile_append_dropWhile.symm
    rw [isTrivia, Bool.or_assoc, Bool.or_eq_true, Bool.or_eq_true] at h
    rcases h with hnil | hline | hopen
    · exact Or.inl (.blank (List.dropWhile_eq_nil_iff.1 (List.isEmpty_iff.1 hnil)))
    · obtain ⟨behind, hbehind⟩ := prefix_of_standsAt hline
      rw [← hbehind] at hsplit
      exact Or.inl (hsplit ▸ .lineComment hgap behind)
    · have hopen := prefix_of_standsAt hopen
      have hclose := (builtin_marksLiterals d hd).blockClose
      cases hpast : past? d.blockClose ((text.dropWhile isBlank).drop d.blockOpen.length) with
      | none => exact Or.inl (hsplit ▸ .unclosed hgap (staysOpen_of_past? hopen hclose hpast))
      | some n =>
        have hclosed := closed_of_past? hopen hclose hpast
        rw [← List.take_append_drop (d.blockOpen.length + n) (text.dropWhile isBlank)] at hsplit
        by_cases hrest : d.OnlyTrivia ((text.dropWhile isBlank).drop (d.blockOpen.length + n))
        · exact Or.inl (hsplit ▸ .comment hgap hclosed hrest)
        · exact Or.inr ⟨_, _, _, hsplit, hgap, hclosed, hrest⟩
  · rintro (h | ⟨gap, c, rest, rfl, hgap, ⟨inner, rfl, -⟩, -⟩)
    · cases h with
      | blank h => rw [isTrivia, List.dropWhile_eq_nil_iff.2 h]; rfl
      | lineComment hgap behind =>
        exact isTrivia_of_lineComment hd hgap (List.prefix_append _ behind)
      | unclosed hgap h =>
        obtain ⟨inner, rfl, -⟩ := h
        exact isTrivia_of_comment hd hgap (List.prefix_append _ inner)
      | comment hgap h _ =>
        obtain ⟨inner, rfl, -⟩ := h
        exact isTrivia_of_comment hd hgap (List.append_assoc .. ▸ List.prefix_append _ _)
    · exact isTrivia_of_comment hd hgap (List.append_assoc .. ▸ List.prefix_append _ _)

/-- **Blanks and comments have no code among them**: the first comment of a text ends in
one place only. -/
theorem OnlyTrivia.not_codeBehindComment (hd : d ∈ builtin) (h : d.OnlyTrivia text) :
    ¬ d.CodeBehindComment text := by
  have hmarks := builtin_marksLiterals d hd
  have hflush := builtin_flush_markers d hd
  rintro ⟨gap, c, rest, heq, hgap, hc, hcode⟩
  have hdrop : text.dropWhile isBlank = c ++ rest := by
    rw [heq, ((flush_of_closed hd hc).append rest).dropWhile_append hgap]
  cases h with
  | blank h =>
    rw [List.dropWhile_eq_nil_iff.2 h] at hdrop
    exact (flush_of_closed hd hc).ne_nil (List.append_eq_nil_iff.1 hdrop.symm).1
  | lineComment hgap' behind =>
    rw [(hflush.1.append behind).dropWhile_append hgap'] at hdrop
    obtain ⟨inner, rfl, -⟩ := hc
    rw [List.append_assoc] at hdrop
    rcases List.prefix_or_prefix_of_prefix (List.prefix_append d.lineComment behind)
      (hdrop ▸ List.prefix_append d.blockOpen (inner ++ rest)) with hpre | hpre
    · exact hmarks.apart.1 hpre
    · exact hmarks.apart.2 hpre
  | unclosed hgap' hopen =>
    have htext := flush_of_staysOpen hd hopen
    rw [htext.dropWhile_append hgap'] at hdrop
    exact (hdrop ▸ hopen).not_closed_append hc
  | comment hgap' hc' hrest =>
    rw [((flush_of_closed hd hc').append _).dropWhile_append hgap'] at hdrop
    exact hcode ((Closed.eq_of_append hmarks.blockClose hc' hc hdrop).2 ▸ hrest)

/-- Behind the first token of a line, blanks and comments change nothing but that the last
comment may stay open. -/
theorem OnlyTrivia.endState (hd : d ∈ builtin) {s : ScanState} (hs : Nest s.stack)
    (h : d.OnlyTrivia text) :
    d.endState (inLine s) text = s
      ∨ d.endState (inLine s) text = ⟨.blockComment :: s.stack⟩ := by
  have hmarks := builtin_marksLiterals d hd
  have hflush := builtin_flush_markers d hd
  rw [← endState_dropWhile rfl rfl]
  induction h with
  | blank h =>
    rw [List.dropWhile_eq_nil_iff.2 h]
    exact Or.inl (endState_nil d _)
  | lineComment hgap behind =>
    have htext := hflush.1.append behind
    have hstep : d.step (inLine s) (d.lineComment ++ behind)
        = ⟨.comment, (d.lineComment ++ behind).length, inLine s⟩ := by
      rw [step_of_nest hs rfl htext.any_head?, freshStep,
        if_pos (standsAt_of_begins hflush.1.ne_nil (List.prefix_append _ behind))]
    rw [htext.dropWhile_append hgap]
    exact Or.inl (endState_of_length htext.ne_nil hstep)
  | @unclosed gap text hgap hopen =>
    have htext := flush_of_staysOpen hd hopen
    have hstep : d.step (inLine s) text
        = ⟨.comment, text.length, { state := ⟨.blockComment :: s.stack⟩, atStart := false }⟩ := by
      rw [step_of_nest hs rfl htext.any_head?, freshStep_of_staysOpen hmarks hopen]
      rfl
    rw [htext.dropWhile_append hgap]
    exact Or.inr (endState_of_length htext.ne_nil hstep)
  | comment hgap hc _ ih =>
    have hflushc := flush_of_closed hd hc
    have hs' : Nest (inLine s).state.stack := hs
    rw [(hflushc.append _).dropWhile_append hgap, endState_closedComment hd hs' rfl hc,
      ← endState_dropWhile rfl rfl]
    exact ih

/-! ## Behind the word -/

/-- The text is over, or starts with a blank or a comment marker. -/
def AtBreak (d : Dialect) (text : List Char) : Prop :=
  text.head?.all isBlank = true ∨ d.lineComment <+: text ∨ d.blockOpen <+: text

instance (d : Dialect) : DecidablePred d.AtBreak := fun _ =>
  inferInstanceAs (Decidable (_ ∨ _ ∨ _))

theorem AtBreak.wordEnds (hd : d.SparesNames) (h : d.AtBreak text) : WordEnds text := by
  have hmarker : ∀ {m : List Char}, StartsOutside m → m <+: text → WordEnds text := by
    rintro m ⟨c, hc, hout⟩ ⟨behind, rfl⟩
    obtain ⟨m, rfl⟩ := List.head?_eq_some_iff.1 hc
    exact hout
  rcases h with hblank | hline | hopen
  · cases text with
    | nil => rfl
    | cons c text =>
      exact eq_false_of_ne_true fun hc =>
        Bool.noConfusion ((isBlank_eq_false_of_isWord hc).symm.trans hblank)
  · exact hmarker hd.lineComment hline
  · exact hmarker hd.blockOpen hopen

/-- Where code follows, a blank stands before it. -/
theorem AtBreak.atStop (hd : d ∈ builtin) (h : d.AtBreak text) (hcode : d.isTrivia text = false) :
    AtStop text := by
  have hflush := builtin_flush_markers d hd
  rcases h with hblank | hline | hopen
  · intro c hc
    rw [hc] at hblank
    rw [isStop, show isBlank c = true from hblank, Bool.true_or]
  · have htrivia := isTrivia_of_lineComment hd (List.forall_mem_nil _) hline
    exact Bool.noConfusion (hcode.symm.trans htrivia)
  · have htrivia := isTrivia_of_comment hd (List.forall_mem_nil _) hopen
    exact Bool.noConfusion (hcode.symm.trans htrivia)

/-- A keyword does not go on where blanks and comments alone follow. -/
theorem tailLength?_eq_none_of_isTrivia (hd : d.SparesNames) (h : d.isTrivia text = true)
    {w : List Char} (hw : WordRun w) (ws : List (List Char)) :
    Phrase.tailLength? (w :: ws) text = none := by
  refine Option.eq_none_iff_forall_ne_some.2 fun k hk => ?_
  obtain ⟨gap, left, -, -, hgap, rfl, -⟩ := exists_gap_of_tailLength? hk
  have hword := hw.any_head? left
  have hblank : Blank gap := fun b hb => isBlank_of_isGap (hgap b hb)
  rw [isTrivia_of_flush hblank (flush_of_any_isWord hword), standsAt, standsAt,
    hd.lineComment.isPrefixOf_eq_false hword, hd.blockOpen.isPrefixOf_eq_false hword,
    Bool.and_false, Bool.and_false] at h
  cases h

/-- The first token of a line without indentation is what its first step reads. -/
theorem head?_tokens (d : Dialect) (s : ScanState) (h : Flush text) :
    (d.scanLine s text).tokens.head?
      = some ⟨(d.step { state := s } text).kind, 0, (d.step { state := s } text).length⟩ := by
  have hlength := d.length_lexemeAt { state := s } h.ne_nil
  show (layout (text.takeWhile isBlank).length
    (d.scanRest { state := s } (text.dropWhile isBlank)).1).head? = _
  rw [h.takeWhile, h.dropWhile, d.scanRest_of_ne_nil _ h.ne_nil, layout, hlength, List.length_nil,
    Nat.zero_add]
  rfl

/-! ## The word `end` -/

section

variable {below : List Mode} {tail : List Char}

theorem wordRun_end : WordRun "end".toList := by decide

/-- The closers are keywords made of words. One of them closes a group: `end`, standing
alone. -/
theorem sequence_closers : ∀ r ∈ sequence.rules, r.closedMode? ≠ none →
    r.pattern = .keywords r.pattern.phrases ∧ (∀ p ∈ r.pattern.phrases, p.InWords)
    ∧ (r.effect = .exit .group →
      r.standalone = true ∧ ∀ p ∈ r.pattern.phrases, p.more = []) := by
  decide +kernel

/-- The keyword `end` closes a group. -/
theorem sequence_end : ∀ r ∈ sequence.rules, (⟨"end".toList, []⟩ : Phrase) ∈ r.pattern.phrases →
    r.effect = .exit .group ∧ r.kind = .keyword := by
  decide +kernel

/-- What a closer at the word `end` is: a keyword that begins with it, and if it closes a
group the word alone, with nothing but trivia behind it. -/
theorem exists_phrase_of_closer? (htail : WordEnds tail) {c : Closer}
    (hc : sequence.closer? ("end".toList ++ tail) = some c) :
    ∃ r ∈ sequence.rules, r.effect = .exit c.mode ∧ r.kind = c.kind
      ∧ ∃ p ∈ r.pattern.phrases, p.InWords ∧ p.first = "end".toList
        ∧ (∃ k, Phrase.tailLength? p.more tail = some k ∧ c.length = 3 + k)
        ∧ (c.mode = .group → p.more = []
          ∧ sequence.isTrivia (("end".toList ++ tail).drop c.length) = true) := by
  obtain ⟨r, hr, heffect, hkind, hn, htrivia⟩ := closer?_spec hc
  have hcloses : r.closedMode? ≠ none := by
    rw [Rule.closedMode?_eq_some_iff.2 heffect]
    exact Option.some_ne_none _
  obtain ⟨hpattern, hwords, hgroup⟩ := sequence_closers r hr hcloses
  rw [hpattern] at hn
  obtain ⟨p, hp, hmatch⟩ := Pattern.longest?_mem (Option.filter_eq_some_iff.1 hn).1
  obtain ⟨hfirst, k, hk, hlength, -⟩ :=
    Phrase.matchLength?_of_word (hwords p hp) wordRun_end.2 htail hmatch
  refine ⟨r, hr, heffect, hkind, p, hp, hwords p hp, hfirst, ⟨k, hk, hlength⟩, fun hmode => ?_⟩
  obtain ⟨hstandalone, hmore⟩ := hgroup (hmode ▸ heffect)
  exact ⟨hmore p hp, htrivia hstandalone⟩

/-- **With blanks and comments behind it, `end` closes a group**, and is no part of a longer
keyword. -/
theorem closer?_end_of_isTrivia (htail : WordEnds tail) (h : sequence.isTrivia tail = true) :
    sequence.closer? ("end".toList ++ tail) = some ⟨.keyword, .group, 3⟩ := by
  have hmatch : (⟨"end".toList, []⟩ : Phrase).matchLength? ("end".toList ++ tail) = some 3 :=
    Phrase.matchLength?_text (p := ⟨"end".toList, []⟩) (by decide) htail
  let r : Rule :=
    { pattern := .keywords [⟨"end".toList, []⟩], kind := .keyword, effect := .exit .group,
      standalone := true }
  have hlength : r.pattern.properLength? ("end".toList ++ tail) = some 3 := by
    rw [Pattern.properLength?, Pattern.matchLength?, Pattern.longest?, List.filterMap_cons, hmatch]
    rfl
  have hcloser : (⟨.keyword, .group, 3⟩ : Closer)
      ∈ sequence.rules.filterMap (sequence.closerOf? ("end".toList ++ tail)) := by
    have hr : r ∈ sequence.rules := by decide +kernel
    refine List.mem_filterMap.2 ⟨r, hr, ?_⟩
    have hdrop : ("end".toList ++ tail).drop 3 = tail := rfl
    rw [closerOf?, hlength]
    dsimp only [r, Rule.closedMode?]
    rw [hdrop, h]
    rfl
  -- a longer closer would go on with a word behind the blanks
  obtain ⟨c, hc, -⟩ := Closer.exists_longest? hcloser
  obtain ⟨r, hr, heffect, hkind, p, hp, hwords, hfirst, ⟨k, hk, hlength⟩, -⟩ :=
    exists_phrase_of_closer? htail hc
  obtain ⟨first, more⟩ := p
  obtain rfl : first = "end".toList := hfirst
  cases more with
  | nil =>
    cases hk
    obtain ⟨heffect', hkind'⟩ := sequence_end r hr hp
    obtain ⟨kind, mode, length⟩ := c
    obtain rfl : mode = .group := Effect.exit.inj (heffect.symm.trans heffect')
    obtain rfl : kind = .keyword := hkind.symm.trans hkind'
    obtain rfl : length = 3 := hlength
    exact hc
  | cons w ws =>
    rw [tailLength?_eq_none_of_isTrivia (builtin_sparesNames _ List.mem_cons_self) h
      (hwords.more w List.mem_cons_self)] at hk
    cases hk

/-- With anything else behind it, `end` closes no group. -/
theorem mode_ne_group_of_closer? (htail : WordEnds tail) (h : sequence.isTrivia tail = false)
    {c : Closer} (hc : sequence.closer? ("end".toList ++ tail) = some c) : c.mode ≠ .group := by
  intro hmode
  obtain ⟨-, -, -, -, p, -, -, -, ⟨k, hk, hlength⟩, hgroup⟩ := exists_phrase_of_closer? htail hc
  obtain ⟨hmore, htrivia⟩ := hgroup hmode
  rw [hmore] at hk
  cases hk
  rw [hlength] at htrivia
  exact Bool.noConfusion (h.symm.trans htrivia)

/-- Of the other rules, those that take the word `end` take more, and open nothing. -/
theorem sequence_end_rules : ∀ r ∈ sequence.rules, r.pattern.TakesWords
    ∧ (r.closedMode? = none → ∀ p ∈ r.pattern.phrases, p.first = "end".toList →
      p.more ≠ [] ∧ r.effect = .none ∧ r.extent = .exact ∧ r.pattern ≠ .color) := by
  decide +kernel

theorem ruleStep_end (htail : AtStop tail) {s : ScanState} {r : Rule} {n : Nat}
    (hr : sequence.rule? { state := s } ("end".toList ++ tail) = some (r, n)) :
    (ruleStep { state := s } ("end".toList ++ tail) r n).next.state = s
    ∧ (ruleStep { state := s } ("end".toList ++ tail) r n).length ≠ 3 := by
  obtain ⟨hmem, hn, hadmits⟩ := rule?_spec hr
  obtain ⟨htakes, hend⟩ := sequence_end_rules r hmem
  have hcloses : r.closedMode? = none := by
    rw [admits, Bool.and_eq_true, Bool.and_eq_true] at hadmits
    exact Option.isNone_iff_eq_none.1 hadmits.1.1
  rcases Pattern.whole_word htakes wordRun_end htail hn with
    ⟨-, -, hdigits⟩ | ⟨p, hp, hwords, hfirst, hmatch⟩
  · exact absurd (hdigits 'e' List.mem_cons_self) (by decide)
  · obtain ⟨hmore, heffect, hextent, hcolor⟩ := hend hcloses p hp hfirst
    obtain ⟨-, k, hk, rfl, -⟩ :=
      Phrase.matchLength?_of_word hwords wordRun_end.2 htail.wordEnds hmatch
    have hpos : 0 < k := by
      obtain ⟨w, ws, hws⟩ := List.exists_cons_of_ne_nil hmore
      rw [hws] at hk
      obtain ⟨gap, left, k, hne, -, -, -, rfl⟩ := exists_gap_of_tailLength? hk
      exact Nat.add_pos_left (List.length_pos_iff.2 hne) _
    rw [ruleStep_of_effect_none hcolor hextent heffect]
    exact ⟨rfl, (Nat.lt_add_of_pos_right hpos).ne'⟩

theorem step_end_of_isTrivia (hbelow : Nest below) (htail : WordEnds tail)
    (h : sequence.isTrivia tail = true) :
    sequence.step { state := ⟨.group :: below⟩ } ("end".toList ++ tail)
      = ⟨.keyword, 3, { state := ⟨below⟩ }⟩ := by
  rw [step_of_nest (hbelow.cons (Or.inr rfl)) rfl rfl,
    freshStep_of_word (builtin_sparesNames _ List.mem_cons_self) rfl, tableStep,
    closer?_end_of_isTrivia htail h]
  rfl

theorem step_end_of_code (hbelow : Nest below) (htail : AtStop tail)
    (h : sequence.isTrivia tail = false) :
    (sequence.step { state := ⟨.group :: below⟩ } ("end".toList ++ tail)).next.state
        = ⟨.group :: below⟩
    ∧ ((sequence.step { state := ⟨.group :: below⟩ } ("end".toList ++ tail)).kind = .keyword →
      (sequence.step { state := ⟨.group :: below⟩ } ("end".toList ++ tail)).length ≠ 3) := by
  rw [step_of_nest (hbelow.cons (Or.inr rfl)) rfl rfl,
    freshStep_of_word (builtin_sparesNames _ List.mem_cons_self) rfl, tableStep]
  split
  · next c hc =>
    have hnone : (⟨.group :: below⟩ : ScanState).close? c.mode = none :=
      ScanState.close?_eq_none_of_mode (mode_ne_group_of_closer? htail.wordEnds h hc).symm
    rw [closerStep, hnone]
    exact ⟨rfl, fun hkind => Kind.noConfusion hkind⟩
  · split
    · next r n hr =>
      obtain ⟨hstate, hlength⟩ := ruleStep_end htail hr
      exact ⟨hstate, fun _ => hlength⟩
    · exact ⟨rfl, fun hkind => Kind.noConfusion hkind⟩

/-- **The scanner closes a group at an `end` exactly where it takes what follows for blanks
and comments**, and reads it as a keyword there only. -/
theorem step_end_iff (hbelow : Nest below) (htail : sequence.AtBreak tail) :
    ((sequence.step { state := ⟨.group :: below⟩ } ("end".toList ++ tail)).kind = .keyword
        ∧ (sequence.step { state := ⟨.group :: below⟩ } ("end".toList ++ tail)).length = 3
      ↔ sequence.isTrivia tail = true)
    ∧ ((sequence.step { state := ⟨.group :: below⟩ } ("end".toList ++ tail)).next.state = ⟨below⟩
      ↔ sequence.isTrivia tail = true) := by
  have hmem : sequence ∈ builtin := List.mem_cons_self
  cases htrivia : sequence.isTrivia tail with
  | true =>
    rw [step_end_of_isTrivia hbelow (htail.wordEnds (builtin_sparesNames _ hmem)) htrivia]
    exact ⟨⟨fun _ => rfl, fun _ => ⟨rfl, rfl⟩⟩, ⟨fun _ => rfl, fun _ => rfl⟩⟩
  | false =>
    obtain ⟨hstate, hlength⟩ := step_end_of_code hbelow (htail.atStop hmem htrivia) htrivia
    refine ⟨⟨fun h => absurd h.2 (hlength h.1), fun h => Bool.noConfusion h⟩, ⟨fun h => ?_,
      fun h => Bool.noConfusion h⟩⟩
    exact absurd (congrArg ScanState.stack (hstate.symm.trans h)) (List.cons_ne_self _ _)

/-- **A bare `end` closes a group where blanks and comments alone follow it, and where a
complete comment follows it, whatever stands behind the comment.** The two do not meet. In
the first case the rest of the line changes nothing, but that its last comment may stay
open. -/
theorem bare_end_closes_iff {below : List Mode} (hbelow : Nest below) {tail : List Char}
    (htail : sequence.AtBreak tail) :
    ((sequence.scanLine ⟨.group :: below⟩ ("end".toList ++ tail)).tokens.head?
        = some ⟨.keyword, 0, 3⟩
      ↔ sequence.OnlyTrivia tail ∨ sequence.CodeBehindComment tail)
    ∧ ((sequence.contextAfter { state := ⟨.group :: below⟩ } ("end".toList ++ tail)).state
        = ⟨below⟩
      ↔ sequence.OnlyTrivia tail ∨ sequence.CodeBehindComment tail)
    ∧ (sequence.OnlyTrivia tail → ¬ sequence.CodeBehindComment tail
      ∧ ((sequence.scanLine ⟨.group :: below⟩ ("end".toList ++ tail)).stateAfter = ⟨below⟩
        ∨ (sequence.scanLine ⟨.group :: below⟩ ("end".toList ++ tail)).stateAfter
          = ⟨.blockComment :: below⟩)) := by
  have hmem : sequence ∈ builtin := List.mem_cons_self
  have hflush : Flush ("end".toList ++ tail) := ⟨'e', rfl, rfl⟩
  obtain ⟨hkeyword, hstate⟩ := step_end_iff hbelow htail
  rw [← isTrivia_iff hmem]
  refine ⟨?_, hstate, fun honly => ⟨honly.not_codeBehindComment hmem, ?_⟩⟩
  · rw [head?_tokens _ _ hflush, Option.some_inj, Token.mk.injEq, Span.mk.injEq]
    exact ⟨fun h => hkeyword.1 ⟨h.1, h.2.2⟩, fun h => ⟨(hkeyword.2 h).1, rfl, (hkeyword.2 h).2⟩⟩
  · have hstep := step_end_of_isTrivia hbelow (htail.wordEnds (builtin_sparesNames _ hmem))
      ((isTrivia_iff hmem).2 (Or.inl honly))
    rw [stateAfter_of_flush _ _ hflush, endState_append (by decide) hstep]
    exact honly.endState hmem hbelow

/-- A comment that ends and one that stays open behind the `end` of a group in a box. -/
theorem bare_end_closes_iff_of_comments :
    Nest [.box] ∧ sequence.AtBreak " /' done '/ /' x".toList
    ∧ sequence.OnlyTrivia " /' done '/ /' x".toList
    ∧ (sequence.scanLine ⟨[.group, .box]⟩ "end /' done '/ /' x".toList).tokens.head?
        = some ⟨.keyword, 0, 3⟩
    ∧ (sequence.contextAfter { state := ⟨[.group, .box]⟩ } "end /' done '/ /' x".toList).state
        = ⟨[.box]⟩ := by
  have hmem : sequence ∈ builtin := List.mem_cons_self
  have hnest : Nest [.box] := nest_nil.cons (Or.inl rfl)
  have htail : sequence.AtBreak " /' done '/ /' x".toList := by decide +kernel
  have honly : sequence.OnlyTrivia " /' done '/ /' x".toList := by
    have hdone := closed_comment hmem (c := " done ".toList) (by decide +kernel)
    have hopen : StaysOpen sequence.blockOpen sequence.blockClose "/' x".toList :=
      ⟨" x".toList, rfl, by decide +kernel⟩
    have hspace : Blank " ".toList := by decide +kernel
    exact .comment hspace hdone (.unclosed hspace hopen)
  obtain ⟨hkeyword, hstate, -⟩ := bare_end_closes_iff hnest htail
  exact ⟨hnest, htail, honly, hkeyword.2 (Or.inl honly), hstate.2 (Or.inl honly)⟩

/-- Behind a comment a participant may stand, and `end` closes the group. -/
theorem not_only_trivia_closes :
    ¬ ∀ below, Nest below → ∀ tail, sequence.AtBreak tail →
      ((sequence.scanLine ⟨.group :: below⟩ ("end".toList ++ tail)).tokens.head?
          = some ⟨.keyword, 0, 3⟩
        ∧ (sequence.contextAfter { state := ⟨.group :: below⟩ } ("end".toList ++ tail)).state
          = ⟨below⟩
      ↔ sequence.OnlyTrivia tail) := by
  have hmem : sequence ∈ builtin := List.mem_cons_self
  intro h
  have honly := (h [] nest_nil " /' done '/ Alice".toList (by decide +kernel)).1
    ⟨by decide +kernel, by decide +kernel⟩
  have halice : ¬ sequence.OnlyTrivia " Alice".toList := fun h =>
    absurd ((isTrivia_iff hmem).2 (Or.inl h)) (by decide +kernel)
  have hdone := closed_comment hmem (c := " done ".toList) (by decide +kernel)
  exact honly.not_codeBehindComment hmem
    ⟨" ".toList, _, " Alice".toList, rfl, by decide +kernel, hdone, halice⟩

end

end Dialect

end UmlMarkup
