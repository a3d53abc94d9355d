import UmlMarkup.Proofs.Scan.Coverage
import UmlMarkup.Proofs.Scan.Squeezing

/-!
# The width of gaps

How many spaces and tabs stand in a row means nothing, in any of the built-in dialects. A
line and the line squeezed, with a single space for every run, hand on the same state and
fall into the same tokens, of the same kinds and with the same texts, squeezed
(`gap_width_inert`).

The two lines are scanned side by side. No step stops within a run of gaps, and what a step
reads in the squeezed line is what it reads in the line, squeezed (`Squeezes`). What makes
it so is that all markers and keywords are written without blanks (`Dialect.Tight`), and
that the scanner, wherever it looks at a single character, does not tell a space from a
tab.
-/

namespace UmlMarkup

/-! ## Colors -/

@[simp] theorem continuesColor_squeeze (c : Char) (rest : List Char) :
    continuesColor c (squeeze rest) = continuesColor c rest := by
  rw [continuesColor,
    any_head?_squeeze (blindToGaps_of_blank fun _ => isAlphanum_eq_false_of_isBlank),
    continuesColor]

theorem isGap_eq_false_of_continuesColor {c : Char} {rest : List Char}
    (h : continuesColor c rest = true) : isGap c = false :=
  eq_false_of_ne_true fun hgap =>
    Bool.noConfusion ((continuesColor_of_isBlank (isBlank_of_isGap hgap) rest).symm.trans h)

@[simp] theorem colorTurn?_squeeze (s : ScanState) (text : List Char) :
    colorTurn? s (squeeze text)
      = (colorTurn? s text).map fun turn => (turn.1, squeeze turn.2) := by
  rw [colorTurn?, colorTurn?, Option.map_map]
  congr 1
  funext outer
  cases text with
  | nil => rfl
  | cons c rest =>
    cases hc : isGap c with
    | false =>
      rw [squeeze_cons hc]
      simp only [continuesColor_squeeze, Function.comp_apply]
      split
      · rfl
      · simp [hc]
    | true =>
      -- the color ends at the run of gaps in either text
      obtain ⟨more, hmore⟩ := exists_squeeze_eq_space hc rest
      simp only [hmore, continuesColor_of_isBlank (isBlank_of_isGap hc) rest,
        continuesColor_of_isBlank (show isBlank ' ' = true from rfl) more, Function.comp_apply,
        Bool.false_eq_true, if_false]

@[simp] theorem readColor_squeeze (s : ScanState) (text : List Char) :
    readColor s (squeeze text) = ((readColor s text).1, squeeze (readColor s text).2) :=
  readColor_map colorTurn?_squeeze s text

/-- **A color holds no gap**: what is read of it is the same in the squeezed text. -/
theorem exists_readColor (s : ScanState) (text : List Char) :
    ∃ read left t, Gapless read ∧ text = read ++ left ∧ readColor s text = (t, left)
      ∧ readColor s (squeeze text) = (t, squeeze left) := by
  have hread : ∃ read, Gapless read ∧ text = read ++ (readColor s text).2 := by
    fun_induction readColor s text with
    | case1 s text h => exact ⟨[], List.forall_mem_nil _, rfl⟩
    | case2 s text t rest h ih =>
      obtain ⟨read, hread, hrest⟩ := ih
      rcases colorTurn?_cases h with ⟨-, c, rfl, hc⟩ | ⟨-, rfl⟩
      · have hgap := isGap_eq_false_of_continuesColor hc
        exact ⟨c :: read, List.forall_mem_cons.2 ⟨hgap, hread⟩, by rw [List.cons_append, ← hrest]⟩
      · exact ⟨read, hread, hrest⟩
  obtain ⟨read, hgapless, htext⟩ := hread
  exact ⟨read, _, _, hgapless, htext, rfl, readColor_squeeze s text⟩

/-! ## Closers -/

@[simp] theorem separates_squeeze (text : List Char) :
    separates (squeeze text) = separates text := by
  cases text with
  | nil => rfl
  | cons c rest =>
    cases hc : isGap c with
    | false => rw [squeeze_cons hc]; rfl
    | true =>
      obtain ⟨more, hmore⟩ := exists_squeeze_eq_space hc rest
      rw [hmore, separates, separates, isBlank_of_isGap hc]
      rfl

/-- The lexeme with its text squeezed. -/
def Lexeme.squeezed (l : Lexeme) : Lexeme := ⟨l.kind, squeeze l.text⟩

namespace Dialect

section

variable {d : Dialect} {ctx : Context} {rest : List Char}

@[simp] theorem isTrivia_squeeze (hd : d.Tight) (text : List Char) :
    d.isTrivia (squeeze text) = d.isTrivia text := by
  have hempty : ∀ t : List Char, (squeeze t).isEmpty = t.isEmpty := fun t =>
    Bool.eq_iff_iff.2 (List.isEmpty_iff.trans (squeeze_eq_nil_iff.trans List.isEmpty_iff.symm))
  rw [isTrivia, dropWhile_squeeze blindToGaps_isBlank, standsAt_squeeze hd.lineComment,
    standsAt_squeeze hd.blockOpen, hempty, isTrivia]

@[simp] theorem closerOf?_squeeze (hd : d.Tight) {r : Rule} (hr : r ∈ d.rules) :
    d.closerOf? (squeeze rest) r = (d.closerOf? rest r).map (Closer.resize (place rest)) := by
  have helastic := Pattern.elastic_properLength? (hd.rules r hr) rest
  rw [closerOf?, closerOf?, helastic.squeeze]
  cases r.closedMode? with
  | none => rfl
  | some m =>
    cases hn : r.pattern.properLength? rest with
    | none => rfl
    | some n =>
      dsimp only [Option.map_some]
      rw [(helastic.seamAt n hn).drop_place, isTrivia_squeeze hd]
      split <;> rfl

theorem seamAt_of_closer? (hd : d.Tight) {c : Closer} (hc : d.closer? rest = some c) :
    SeamAt rest c.length := by
  obtain ⟨r, hr, -, -, hn, -⟩ := closer?_spec hc
  exact (Pattern.elastic_properLength? (hd.rules r hr) rest).seamAt _ hn

@[simp] theorem closer?_squeeze (hd : d.Tight) (rest : List Char) :
    d.closer? (squeeze rest) = (d.closer? rest).map (Closer.resize (place rest)) := by
  have hclosers : d.rules.filterMap (d.closerOf? (squeeze rest))
      = (d.rules.filterMap (d.closerOf? rest)).map (Closer.resize (place rest)) := by
    rw [List.map_filterMap]
    exact List.filterMap_congr fun r hr => closerOf?_squeeze hd hr
  have hseam : ∀ c ∈ d.rules.filterMap (d.closerOf? rest), SeamAt rest c.length := by
    intro c hc
    obtain ⟨r, hr, hof⟩ := List.mem_filterMap.1 hc
    obtain ⟨-, -, hn, -⟩ := closerOf?_spec hof
    exact (Pattern.elastic_properLength? (hd.rules r hr) rest).seamAt _ hn
  rw [closer?, hclosers, Closer.longest?_map_resize, closer?]
  exact fun a ha b hb => (hseam a ha).place_lt_place_iff (hseam b hb)

/-! ## Rules and words -/

@[simp] theorem rule?_squeeze (hd : d.Tight) (ctx : Context) (rest : List Char) :
    d.rule? ctx (squeeze rest) = (d.rule? ctx rest).map fun found =>
      (found.1, place rest found.2) := by
  have happlied : ∀ r ∈ d.rules, applied? ctx (squeeze rest) r
      = (applied? ctx rest r).map fun found => (found.1, place rest found.2) := fun r hr => by
    have helastic := Pattern.elastic_properLength? (hd.rules r hr) rest
    rw [applied?, applied?, helastic.squeeze]
    cases hn : r.pattern.properLength? rest with
    | none => rfl
    | some n =>
      rw [Option.map_some, Option.bind_some, Option.bind_some,
        (helastic.seamAt n hn).drop_place, admits, separates_squeeze, admits]
      split <;> rfl
  rw [rule?, rule?, ← List.head?_filterMap, ← List.head?_filterMap,
    List.filterMap_congr happlied, ← List.map_filterMap, List.head?_map]

theorem seamAt_of_rule? (hd : d.Tight) {r : Rule} {n : Nat}
    (hr : d.rule? ctx rest = some (r, n)) : SeamAt rest n := by
  obtain ⟨hmem, hn, -⟩ := rule?_spec hr
  exact (Pattern.elastic_properLength? (hd.rules r hmem) rest).seamAt n hn

@[simp] theorem breaksWord_squeeze (hd : d.Tight) (text : List Char) :
    d.breaksWord (squeeze text) = d.breaksWord text :=
  any_congr_of_mem fun r hr => Pattern.breaksWord_squeeze (hd.rules r hr) text

/-- There are no gaps in a word. -/
theorem gapless_take_wordTail (d : Dialect) (inHeader : Bool) (text : List Char) :
    Gapless (text.take (d.wordTail inHeader text)) := by
  induction text with
  | nil => exact List.forall_mem_nil _
  | cons c rest ih =>
    rw [wordTail]
    split
    · exact List.forall_mem_nil _
    · next hstop =>
      rw [List.take_succ_cons]
      refine List.forall_mem_cons.2 ⟨eq_false_of_ne_true fun hgap => hstop ?_, ih⟩
      simp [hgap]

@[simp] theorem wordTail_squeeze (hd : d.Tight) (inHeader : Bool) (text : List Char) :
    d.wordTail inHeader (squeeze text) = d.wordTail inHeader text := by
  induction text with
  | nil => rfl
  | cons c rest ih =>
    cases hc : isGap c with
    | false =>
      have hbreaks := breaksWord_squeeze hd (c :: rest)
      rw [squeeze_cons hc] at hbreaks ⊢
      rw [wordTail, hbreaks, ih, wordTail]
    | true =>
      obtain ⟨more, hmore⟩ := exists_squeeze_eq_space hc rest
      rw [hmore, wordTail, wordTail, isBlank_of_isGap hc, show isBlank ' ' = true from rfl]
      simp only [Bool.true_or, if_true]

/-! ## Steps -/

/-- **The step `b` reads in the squeezed text what `a` reads in the text**, squeezed, and no
run of gaps is cut. -/
structure Squeezes (rest : List Char) (a b : Step) : Prop where
  kind : b.kind = a.kind
  next : b.next = a.next
  length : b.length = place rest a.length
  seamAt : SeamAt rest a.length

/-- A step that reads all that is left. -/
theorem squeezes_length (kind : Kind) (rest : List Char) (next : Context) :
    Squeezes rest ⟨kind, rest.length, next⟩ ⟨kind, (squeeze rest).length, next⟩ :=
  ⟨rfl, rfl, (place_length rest).symm, seamAt_length rest⟩

theorem continueStep_squeezes (m : Mode) (kind : Kind) {marker : List Char}
    (hmarker : Solid marker) :
    Squeezes rest (continueStep ctx rest m kind marker)
      (continueStep ctx (squeeze rest) m kind marker) := by
  have helastic := elastic_past? hmarker rest
  unfold continueStep
  rw [helastic.squeeze]
  cases hn : past? marker rest with
  | none => exact squeezes_length kind rest ctx
  | some n => exact ⟨rfl, rfl, rfl, helastic.seamAt n hn⟩

/-- A literal that starts here goes on to its closing marker or to the end of the line. -/
theorem opened_squeezes {opener marker : List Char} (hopener : Gapless opener)
    (hmarker : Solid marker) (inner : List Char) (kind : Kind) (next unclosed : Context) :
    Squeezes (opener ++ inner)
      (match past? marker inner with
        | some n => ⟨kind, opener.length + n, next⟩
        | none => ⟨kind, (opener ++ inner).length, unclosed⟩)
      (match past? marker (squeeze inner) with
        | some n => ⟨kind, opener.length + n, next⟩
        | none => ⟨kind, (squeeze (opener ++ inner)).length, unclosed⟩) := by
  have helastic := elastic_past? hmarker inner
  rw [helastic.squeeze]
  cases hn : past? marker inner with
  | none => exact squeezes_length kind _ unclosed
  | some n =>
    have hseam := seam_of_gapless hopener inner
    refine ⟨rfl, rfl, ?_, seamAt_append hseam (helastic.seamAt n hn)⟩
    show opener.length + place inner n = _
    rw [place_append hseam, squeeze_of_gapless hopener]

theorem commentStep_squeezes (hd : d.Tight) (h : standsAt d.blockOpen rest = true) :
    Squeezes rest (d.commentStep ctx rest) (d.commentStep ctx (squeeze rest)) := by
  obtain ⟨inner, rfl⟩ := List.isPrefixOf_iff_prefix.1 (Bool.and_eq_true_iff.1 h).2
  have hopened := opened_squeezes hd.blockOpen.gapless hd.blockClose inner .comment ctx
    (ctx.settle.enter .blockComment)
  unfold commentStep
  rw [List.drop_left, squeeze_append_of_gapless hd.blockOpen.gapless, List.drop_left]
  rwa [squeeze_append_of_gapless hd.blockOpen.gapless] at hopened

theorem stringStep_squeezes (hd : d.Tight) (h : rest.head? = some d.quote) :
    Squeezes rest (d.stringStep ctx rest) (d.stringStep ctx (squeeze rest)) := by
  obtain ⟨inner, rfl⟩ := List.head?_eq_some_iff.1 h
  have hquote : Solid [d.quote] := Literal.string.solid hd
  have hopened := opened_squeezes hquote.2.gapless hquote inner .string ctx.markQuoted
    (ctx.settle.enter .string)
  unfold stringStep
  rw [squeeze_cons (hquote.2.gapless _ List.mem_cons_self)]
  rwa [squeeze_append_of_gapless hquote.2.gapless] at hopened

theorem closerStep_squeezes (hd : d.Tight) {c : Closer} (hc : d.closer? rest = some c) :
    Squeezes rest (closerStep ctx c) (closerStep ctx (c.resize (place rest))) := by
  have hseam := seamAt_of_closer? hd hc
  unfold closerStep
  rw [show (c.resize (place rest)).mode = c.mode from rfl]
  split
  · exact ⟨rfl, rfl, rfl, hseam⟩
  · exact ⟨rfl, rfl, rfl, hseam⟩

/-- A color literal holds no gap. -/
theorem readMatch_squeeze (ctx : Context) {r : Rule} {n : Nat}
    (hn : r.pattern.properLength? rest = some n) (hseam : SeamAt rest n) :
    readMatch ctx (squeeze rest) r (place rest n)
        = ((readMatch ctx rest r n).1, place rest (readMatch ctx rest r n).2)
      ∧ SeamAt rest (readMatch ctx rest r n).2 := by
  by_cases hcolor : r.pattern = .color
  · rw [readMatch, if_pos hcolor, readMatch, if_pos hcolor]
    rw [hcolor] at hn
    cases rest with
    | nil => cases hn
    | cons c more =>
      have hc : c = '#' := by
        have hlength := (Option.filter_eq_some_iff.1 hn).1
        rw [Pattern.matchLength?, Pattern.colorLength?_cons] at hlength
        split at hlength
        · next h => exact h.1
        · cases hlength
      have hgap : isGap c = false := hc ▸ rfl
      obtain ⟨read, left, s, hread, rfl, hlong, hshort⟩ :=
        exists_readColor (ctx.state.enter .color) more
      rw [squeeze_cons hgap, List.drop_one, List.drop_one, List.tail_cons, List.tail_cons,
        hlong, hshort, squeeze_append_of_gapless hread]
      -- the token is the `#` and what is read behind it
      have htoken : ∀ tail : List Char,
          (c :: (read ++ tail)).length - tail.length = (c :: read).length := fun tail => by
        simp only [List.length_cons, List.length_append]
        omega
      have htake : Gapless ((c :: (read ++ left)).take (c :: read).length) := by
        rw [List.length_cons, List.take_succ_cons, List.take_left]
        exact List.forall_mem_cons.2 ⟨hgap, hread⟩
      have hle : (c :: read).length ≤ (c :: (read ++ left)).length := by simp
      dsimp only
      rw [htoken, htoken, place_of_gapless hle htake]
      exact ⟨rfl, seamAt_of_gapless hle htake⟩
  · rw [readMatch_of_ne_color hcolor, readMatch_of_ne_color hcolor]
    exact ⟨rfl, hseam⟩

theorem reach_squeeze (extent : Extent) {n : Nat} (h : SeamAt rest n) :
    reach extent (place rest n) (squeeze rest) = place rest (reach extent n rest)
      ∧ SeamAt rest (reach extent n rest) := by
  cases extent with
  | exact => exact ⟨rfl, h⟩
  | toEnd => exact ⟨(place_length rest).symm, seamAt_length rest⟩
  | toBlank =>
    have hp : BlindToGaps fun c => !isBlank c := fun c hc =>
      congrArg (!·) (blindToGaps_isBlank c hc)
    have hword : Gapless ((rest.drop n).takeWhile fun c => !isBlank c) := fun c hc =>
      eq_false_of_ne_true fun hgap => by
        have hblank := List.mem_takeWhile_imp hc
        rw [isBlank_of_isGap hgap] at hblank
        cases hblank
    have hle := (List.takeWhile_prefix (l := rest.drop n) fun c => !isBlank c).length_le
    have htake := hword
    rw [List.prefix_iff_eq_take.1 (List.takeWhile_prefix _)] at htake
    rw [reach, reach, h.drop_place, takeWhile_squeeze hp, squeeze_of_gapless hword, h.place_add,
      place_of_gapless hle htake]
    exact ⟨rfl, h.add (seamAt_of_gapless hle htake)⟩

theorem ruleStep_squeezes (hd : d.Tight) {r : Rule} {n : Nat}
    (hr : d.rule? ctx rest = some (r, n)) :
    Squeezes rest (ruleStep ctx rest r n) (ruleStep ctx (squeeze rest) r (place rest n)) := by
  obtain ⟨hread, hseam⟩ := readMatch_squeeze ctx (rule?_spec hr).2.1 (seamAt_of_rule? hd hr)
  obtain ⟨hreach, hend⟩ := reach_squeeze r.extent hseam
  unfold ruleStep
  rw [hread]
  exact ⟨rfl, rfl, hreach, hend⟩

theorem wordStep_squeezes (hd : d.Tight) {c : Char} (hc : isGap c = false) (more : List Char) :
    Squeezes (c :: more) (d.wordStep ctx (c :: more)) (d.wordStep ctx (squeeze (c :: more))) := by
  have htail : 1 + d.wordTail ctx.inHeader more ≤ (c :: more).length := by
    rw [List.length_cons, Nat.add_comm]
    exact Nat.succ_le_succ (d.wordTail_le _ _)
  have hword : Gapless ((c :: more).take (1 + d.wordTail ctx.inHeader more)) := by
    rw [Nat.add_comm, List.take_succ_cons]
    exact List.forall_mem_cons.2 ⟨hc, d.gapless_take_wordTail _ _⟩
  unfold wordStep
  rw [squeeze_cons hc, List.drop_one, List.drop_one, List.tail_cons, List.tail_cons,
    wordTail_squeeze hd]
  exact ⟨rfl, rfl, (place_of_gapless htail hword).symm, seamAt_of_gapless htail hword⟩

theorem freshStep_squeezes (hd : d.Tight) (hne : rest ≠ [])
    (hblank : rest.head?.any isBlank = false) :
    Squeezes rest (d.freshStep ctx rest) (d.freshStep ctx (squeeze rest)) := by
  obtain ⟨c, more, rfl⟩ := List.exists_cons_of_ne_nil hne
  have hc : isGap c = false := eq_false_of_ne_true fun hgap =>
    Bool.noConfusion (hblank.symm.trans (isBlank_of_isGap hgap))
  have hhead : (squeeze (c :: more)).head? = (c :: more).head? := by rw [squeeze_cons hc]; rfl
  unfold freshStep
  rw [standsAt_squeeze hd.lineComment, standsAt_squeeze hd.blockOpen, hhead,
    closer?_squeeze hd, rule?_squeeze hd]
  split
  · exact squeezes_length .comment _ ctx
  · split
    · next hblock => exact commentStep_squeezes hd hblock
    · split
      · next hquote => exact stringStep_squeezes hd hquote
      · split
        · -- the colon of a note header
          have hone : 1 ≤ (c :: more).length := Nat.succ_le_succ (Nat.zero_le _)
          have htake : Gapless ((c :: more).take 1) :=
            List.forall_mem_cons.2 ⟨hc, List.forall_mem_nil _⟩
          exact ⟨rfl, rfl, (place_of_gapless hone htake).symm, seamAt_of_gapless hone htake⟩
        · cases hcloser : d.closer? (c :: more) with
          | some closer => exact closerStep_squeezes hd hcloser
          | none =>
            cases hr : d.rule? ctx (c :: more) with
            | some found => exact ruleStep_squeezes hd hr
            | none => exact wordStep_squeezes hd hc more

theorem bodyStep_squeezes (hd : d.Tight) :
    Squeezes rest (d.bodyStep ctx rest) (d.bodyStep ctx (squeeze rest)) := by
  unfold bodyStep
  rw [closer?_squeeze hd]
  by_cases hstart : ctx.atStart = true
  · rw [if_pos hstart, if_pos hstart]
    cases hcloser : d.closer? rest with
    | some closer => exact closerStep_squeezes hd hcloser
    | none => exact squeezes_length .unstyled rest ctx
  · rw [if_neg hstart, if_neg hstart]
    exact squeezes_length .unstyled rest ctx

theorem blankStep_squeezes : Squeezes rest (blankStep ctx rest) (blankStep ctx (squeeze rest)) := by
  have htake := List.prefix_iff_eq_take.1 (List.takeWhile_prefix (l := rest) isBlank)
  refine ⟨rfl, rfl, ?_, ⟨(List.takeWhile_prefix _).length_le, ?_⟩⟩
  · show ((squeeze rest).takeWhile isBlank).length = place rest (rest.takeWhile isBlank).length
    rw [takeWhile_squeeze blindToGaps_isBlank, place, ← htake]
  · show Seam (rest.take (rest.takeWhile isBlank).length)
      (rest.drop (rest.takeWhile isBlank).length)
    rw [drop_length_takeWhile, ← htake]
    exact seam_takeWhile blindToGaps_isBlank rest

/-- **A step takes no account of the width of gaps.** -/
theorem step_squeezes (hd : d.Tight) (hne : rest ≠ []) (ctx : Context) :
    Squeezes rest (d.step ctx rest) (d.step ctx (squeeze rest)) := by
  unfold step
  rw [any_head?_squeeze blindToGaps_isBlank]
  split
  · exact squeezes_length .unstyled rest ctx
  · split
    · exact blankStep_squeezes
    · next hblank =>
      have hblank := eq_false_of_ne_true hblank
      split
      · exact continueStep_squeezes _ _ hd.blockClose
      · exact continueStep_squeezes _ _ (Literal.string.solid hd)
      · split
        · exact freshStep_squeezes hd hne hblank
        · exact bodyStep_squeezes hd
      · exact freshStep_squeezes hd hne hblank

end

/-! ## Lines -/

/-- **The lexemes of the squeezed rest of a line** are those of the rest of the line,
squeezed. -/
theorem scanRest_squeeze {d : Dialect} (hd : d.Tight) (ctx : Context) (rest : List Char) :
    d.scanRest ctx (squeeze rest)
      = ((d.scanRest ctx rest).1.map Lexeme.squeezed, (d.scanRest ctx rest).2) := by
  induction ctx, rest using d.scan_induction with
  | atEnd ctx => simp [squeeze]
  | token ctx rest hne ih =>
    obtain ⟨hkind, hnext, hlength, hseam⟩ := step_squeezes hd hne ctx
    have hlexeme : d.lexemeAt ctx (squeeze rest) = (d.lexemeAt ctx rest).squeezed := by
      rw [lexemeAt, hkind, hlength, hseam.take_place]
      rfl
    have hafter : d.contextAfter ctx (squeeze rest) = d.contextAfter ctx rest := by
      rw [contextAfter, hnext, contextAfter]
    have hrest : d.restAfter ctx (squeeze rest) = squeeze (d.restAfter ctx rest) := by
      simp [restAfter, hlength, hseam]
    rw [scanRest_of_ne_nil d ctx (mt squeeze_eq_nil_iff.1 hne), hlexeme, hafter, hrest, ih,
      scanRest_of_ne_nil d ctx hne, List.map_cons]

/-- So are the pieces of the squeezed line those of the line. -/
theorem scanLine_squeeze {d : Dialect} (hd : d.Tight) (s : ScanState) (line : List Char) :
    d.scanLine s (squeeze line)
      = ⟨squeeze (d.scanLine s line).indent, (d.scanLine s line).lexemes.map Lexeme.squeezed,
        (d.scanLine s line).stateAfter⟩ := by
  simp only [scanLine, takeWhile_squeeze blindToGaps_isBlank, dropWhile_squeeze blindToGaps_isBlank,
    scanRest_squeeze hd]

/-- **The width of gaps changes nothing**, whatever the line and whatever is open. The line
and the line squeezed hand on the same state, and their tokens are of the same kinds, one
by one, and of the same texts, squeezed. -/
theorem gap_width_inert (d : Dialect) (hd : d ∈ builtin) (s : ScanState) (line : List Char) :
    (d.scanLine s (squeeze line)).stateAfter = (d.scanLine s line).stateAfter
    ∧ (d.scanLine s (squeeze line)).tokens.map Token.kind
      = (d.scanLine s line).tokens.map Token.kind
    ∧ (d.scanLine s (squeeze line)).tokens.map (·.text (squeeze line))
      = (d.scanLine s line).tokens.map fun t => squeeze (t.text line) := by
  have hsqueeze := scanLine_squeeze (builtin_tight d hd) s line
  refine ⟨by rw [hsqueeze], ?_, ?_⟩
  · rw [ScannedLine.tokens, map_kind_layout, ScannedLine.tokens, map_kind_layout, hsqueeze,
      List.map_map]
    rfl
  · have htexts := congrArg (List.map squeeze) (map_text_tokens d s line)
    rw [List.map_map, List.map_map] at htexts
    rw [map_text_tokens, hsqueeze, List.map_map]
    exact htexts.symm

/-- The gaps of a keyword of three words, one of them a tab between two spaces. -/
theorem gap_width_inert_of_keyword :
    sequence ∈ builtin ∧ squeeze "note \t left  of A".toList = "note left of A".toList
    ∧ (sequence.scanLine .initial "note left of A".toList).stateAfter
      = (sequence.scanLine .initial "note \t left  of A".toList).stateAfter
    ∧ (sequence.scanLine .initial "note left of A".toList).tokens.map Token.kind
      = (sequence.scanLine .initial "note \t left  of A".toList).tokens.map Token.kind
    ∧ ((sequence.scanLine .initial "note left of A".toList).tokens.map fun t =>
        t.text "note left of A".toList)
      = (sequence.scanLine .initial "note \t left  of A".toList).tokens.map fun t =>
        squeeze (t.text "note \t left  of A".toList) := by
  have hmem : sequence ∈ builtin := List.mem_cons_self
  have hsqueeze : squeeze "note \t left  of A".toList = "note left of A".toList := by
    decide +kernel
  have hinert := gap_width_inert sequence hmem .initial "note \t left  of A".toList
  rw [hsqueeze] at hinert
  exact ⟨hmem, hsqueeze, hinert⟩

end Dialect

end UmlMarkup
