import Mathlib.Order.MinMax
import UmlMarkup.Proofs.Scan.Lookahead

/-!
# Matching in a squeezed text

`squeeze` leaves a single space of every run of spaces and tabs. This module says what
becomes of the matches of a pattern then: the pattern matches the same text, squeezed.

A text may be squeezed in two parts wherever the cut between them does not fall into a run
(`Seam`). A column of the text has a `place` in the squeezed one, which for a seam is where
the squeezed second part begins. Most of what is matched holds no gap at all, and what may
hold one does not begin or end in it, so every match ends at a seam, and the length of the
match in the squeezed text is the place of its end. That is what it means for a measure of
texts to be `Elastic`. It holds of all patterns in which no gap is written
(`Pattern.elastic`).
-/

namespace UmlMarkup

/-! ## Squeezed texts -/

/-- **The test does not tell a tab from a space.** -/
def BlindToGaps (p : Char → Bool) : Prop := ∀ c, isGap c = true → p c = p ' '

theorem blindToGaps_isGap : BlindToGaps isGap := fun _ h => h

theorem blindToGaps_isBlank : BlindToGaps isBlank := fun _ h => isBlank_of_isGap h

/-- What no blank passes is passed by neither. -/
theorem blindToGaps_of_blank {p : Char → Bool} (hp : ∀ c, isBlank c = true → p c = false) :
    BlindToGaps p := fun c hc => (hp c (isBlank_of_isGap hc)).trans (hp ' ' rfl).symm

section

variable {c : Char} {rest text : List Char}

@[simp] theorem any_head?_squeeze {p : Char → Bool} (hp : BlindToGaps p) (text : List Char) :
    (squeeze text).head?.any p = text.head?.any p := by
  rw [head?_squeeze]
  cases text with
  | nil => rfl
  | cons c rest =>
    cases hc : isGap c with
    | false => simp [hc]
    | true => simp [hc, hp c hc]

@[simp] theorem squeeze_eq_nil_iff : squeeze text = [] ↔ text = [] := by
  rw [← List.head?_eq_none_iff, head?_squeeze, Option.map_eq_none_iff, List.head?_eq_none_iff]

/-- A run of gaps at the start becomes a space. -/
theorem exists_squeeze_eq_space (hc : isGap c = true) (rest : List Char) :
    ∃ more, squeeze (c :: rest) = ' ' :: more := by
  refine List.head?_eq_some_iff.1 ?_
  rw [head?_squeeze]
  simp [hc]

/-- A character before a seam is one in the squeezed text too. -/
theorem exists_squeeze_cons (h : Seam [c] rest) : ∃ b, squeeze (c :: rest) = b :: squeeze rest := by
  rw [← List.singleton_append, squeeze_append h]
  cases hc : isGap c with
  | false => exact ⟨c, by rw [squeeze_cons hc]; rfl⟩
  | true => exact ⟨' ', by rw [squeeze_cons_of_gap hc rfl]; rfl⟩

theorem run_of_not_seam (h : ¬ Seam [c] rest) :
    isGap c = true ∧ rest.head?.any isGap = true := by
  refine ⟨?_, ?_⟩
  · by_contra hc
    exact h fun hlast => absurd hlast hc
  · by_contra hrest
    exact h (seam_of_head (eq_false_of_ne_true hrest))

/-- **What holds no gap is found in the squeezed text where it is in the text.** -/
@[simp] theorem isPrefixOf_squeeze {w : List Char} (hw : Gapless w) (text : List Char) :
    w.isPrefixOf (squeeze text) = w.isPrefixOf text := by
  induction w generalizing text with
  | nil => rfl
  | cons a w ih =>
    obtain ⟨ha, hw⟩ := List.forall_mem_cons.1 hw
    cases text with
    | nil => rfl
    | cons c rest =>
      cases hc : isGap c with
      | false => rw [squeeze_cons hc, List.isPrefixOf_cons_cons, List.isPrefixOf_cons_cons, ih hw]
      | true =>
        -- neither text starts with the first character
        obtain ⟨more, hmore⟩ := exists_squeeze_eq_space hc rest
        have hne : ∀ b, isGap b = true → (a == b) = false := fun b hb =>
          beq_eq_false_iff_ne.2 fun he => Bool.noConfusion (ha.symm.trans (he ▸ hb))
        rw [hmore, List.isPrefixOf_cons_cons, List.isPrefixOf_cons_cons, hne ' ' rfl, hne c hc,
          Bool.false_and, Bool.false_and]

@[simp] theorem standsAt_squeeze {marker : List Char} (hmarker : Unblank marker)
    (text : List Char) :
    standsAt marker (squeeze text) = standsAt marker text := by
  simp [standsAt, hmarker.gapless]

end

/-! ## Runs of a kind -/

section

variable {p : Char → Bool}

/-- A run that is passed goes on behind a gap just if a gap is passed. -/
theorem any_head?_takeWhile_isGap (hp : BlindToGaps p) (hspace : p ' ' = true)
    (text : List Char) : (text.takeWhile p).head?.any isGap = text.head?.any isGap := by
  cases text with
  | nil => rfl
  | cons c rest =>
    cases hpc : p c with
    | true => rw [List.takeWhile_cons_of_pos hpc]; rfl
    | false =>
      have hc : isGap c = false := eq_false_of_ne_true fun hgap =>
        Bool.noConfusion (hpc.symm.trans ((hp c hgap).trans hspace))
      rw [List.takeWhile_cons_of_neg (by rw [hpc]; exact Bool.false_ne_true)]
      exact hc.symm

/-- **What is taken from the squeezed text is what is taken from the text**, squeezed. -/
@[simp] theorem takeWhile_squeeze (hp : BlindToGaps p) (text : List Char) :
    (squeeze text).takeWhile p = squeeze (text.takeWhile p) := by
  induction text with
  | nil => rfl
  | cons c rest ih =>
    cases hpc : p c with
    | false =>
      -- neither text has anything to take
      have hhead : (squeeze (c :: rest)).head?.any p = false :=
        (any_head?_squeeze hp (c :: rest)).trans hpc
      have hstop : (c :: rest).head?.any p = false := hpc
      rw [takeWhile_of_stop hhead, takeWhile_of_stop hstop]
      rfl
    | true =>
      rw [List.takeWhile_cons_of_pos hpc]
      cases hc : isGap c with
      | false => rw [squeeze_cons hc, squeeze_cons hc, List.takeWhile_cons_of_pos hpc, ih]
      | true =>
        have hspace : p ' ' = true := (hp c hc).symm.trans hpc
        have hhead := any_head?_takeWhile_isGap hp hspace rest
        cases hrest : rest.head?.any isGap with
        | false =>
          rw [squeeze_cons_of_gap hc hrest, squeeze_cons_of_gap hc (hhead.trans hrest),
            List.takeWhile_cons_of_pos hspace, ih]
        | true =>
          rw [squeeze_cons_of_run hc hrest, squeeze_cons_of_run hc (hhead.trans hrest), ih]

/-- No run of gaps is cut where something else than a neighbour begins. -/
theorem seam_takeWhile (hp : BlindToGaps p) (text : List Char) :
    Seam (text.takeWhile p) (text.dropWhile p) := fun hlast => by
  obtain ⟨c, hc, hgap⟩ := (Option.any_eq_true _ _).1 hlast
  have hpc : p c = true := List.mem_takeWhile_imp (List.mem_of_mem_getLast? hc)
  have hdrop := any_head?_dropWhile (p := p) text
  cases hhead : (text.dropWhile p).head? with
  | none => rfl
  | some b =>
    have hpb : p b = false := by rwa [hhead] at hdrop
    refine eq_false_of_ne_true fun hb => ?_
    exact Bool.noConfusion (hpb.symm.trans ((hp b hb).trans ((hp c hgap).symm.trans hpc)))

@[simp] theorem dropWhile_squeeze (hp : BlindToGaps p) (text : List Char) :
    (squeeze text).dropWhile p = squeeze (text.dropWhile p) := by
  have hwhole := squeeze_append (seam_takeWhile hp text)
  rw [List.takeWhile_append_dropWhile, ← takeWhile_squeeze hp] at hwhole
  exact List.append_cancel_left ((List.takeWhile_append_dropWhile).trans hwhole)

end

/-! ## Places -/

/-- **Where a column of the text comes to stand in the squeezed text.** -/
def place (text : List Char) (n : Nat) : Nat := (squeeze (text.take n)).length

/-- The column lies within the text, and no run of gaps is cut there. -/
structure SeamAt (text : List Char) (n : Nat) : Prop where
  le_length : n ≤ text.length
  seam : Seam (text.take n) (text.drop n)

section

variable {c : Char} {u v text : List Char} {m n : Nat}

theorem seamAt_zero (text : List Char) : SeamAt text 0 := ⟨Nat.zero_le _, seam_nil text⟩

@[simp] theorem place_length (text : List Char) :
    place text text.length = (squeeze text).length := by
  rw [place, List.take_length]

theorem seamAt_length (text : List Char) : SeamAt text text.length :=
  ⟨Nat.le_refl _, by rw [List.drop_length]; exact fun _ => rfl⟩

/-- What holds no gap stays where it is. -/
@[simp] theorem place_of_gapless (hn : n ≤ text.length) (h : Gapless (text.take n)) :
    place text n = n := by
  simp [place, h, List.length_take_of_le hn]

theorem seamAt_of_gapless (hn : n ≤ text.length) (h : Gapless (text.take n)) : SeamAt text n :=
  ⟨hn, seam_of_gapless h _⟩

theorem SeamAt.squeeze_eq (h : SeamAt text n) :
    squeeze text = squeeze (text.take n) ++ squeeze (text.drop n) := by
  rw [← squeeze_append h.seam, List.take_append_drop]

@[simp] theorem SeamAt.take_place (h : SeamAt text n) :
    (squeeze text).take (place text n) = squeeze (text.take n) := by
  rw [h.squeeze_eq, place, List.take_left]

@[simp] theorem SeamAt.drop_place (h : SeamAt text n) :
    (squeeze text).drop (place text n) = squeeze (text.drop n) := by
  rw [h.squeeze_eq, place, List.drop_left]

theorem drop_squeeze_of_gapless (hn : n ≤ text.length) (h : Gapless (text.take n)) :
    (squeeze text).drop n = squeeze (text.drop n) := by
  have hdrop := (seamAt_of_gapless hn h).drop_place
  rwa [place_of_gapless hn h] at hdrop

/-- Places behind a seam lie behind its place. -/
theorem SeamAt.place_lt_place (h : SeamAt text n) (hmn : n < m) (hm : m ≤ text.length) :
    place text n < place text m := by
  obtain ⟨k, rfl⟩ := Nat.exists_eq_add_of_lt hmn
  have hne : (text.drop n).take (k + 1) ≠ [] := by
    rw [← List.length_pos_iff, List.length_take, List.length_drop]
    omega
  have hpos := List.length_pos_iff.2 (mt squeeze_eq_nil_iff.1 hne)
  rw [Nat.add_assoc, place, place, List.take_add, squeeze_append (h.seam.take_right _),
    List.length_append]
  omega

theorem SeamAt.place_le_place (h : SeamAt text n) (hmn : n ≤ m) (hm : m ≤ text.length) :
    place text n ≤ place text m := by
  rcases Nat.eq_or_lt_of_le hmn with rfl | hlt
  · exact Nat.le_refl _
  · exact Nat.le_of_lt (h.place_lt_place hlt hm)

@[simp] theorem SeamAt.place_lt_place_iff (hn : SeamAt text n) (hm : SeamAt text m) :
    place text n < place text m ↔ n < m := by
  refine ⟨fun h => Nat.lt_of_not_le fun hle => ?_, fun h => hn.place_lt_place h hm.le_length⟩
  exact absurd h (Nat.not_lt_of_le (hm.place_le_place hle hn.le_length))

@[simp] theorem SeamAt.place_pos_iff (h : SeamAt text n) : 0 < place text n ↔ 0 < n := by
  refine ⟨fun hpos => Nat.pos_of_ne_zero ?_,
    fun hpos => (seamAt_zero text).place_lt_place hpos h.le_length⟩
  rintro rfl
  exact Nat.lt_irrefl 0 hpos

/-- Behind a first part, places are those of the second. -/
@[simp] theorem place_append (h : Seam u v) (n : Nat) :
    place (u ++ v) (u.length + n) = (squeeze u).length + place v n := by
  rw [place, List.take_length_add_append, squeeze_append (h.take_right n), List.length_append,
    place]

theorem seamAt_append (h : Seam u v) (hn : SeamAt v n) : SeamAt (u ++ v) (u.length + n) := by
  refine ⟨by rw [List.length_append]; exact Nat.add_le_add_left hn.le_length _, ?_⟩
  rw [List.take_length_add_append, List.drop_length_add_append]
  by_cases htake : v.take n = []
  · have hdrop : v.drop n = v := by
      have hwhole := List.take_append_drop n v
      rwa [htake, List.nil_append] at hwhole
    rwa [htake, List.append_nil, hdrop]
  · exact hn.seam.append_left htake u

/-- Behind one character. -/
theorem place_cons (h : Seam [c] v) (n : Nat) : place (c :: v) (n + 1) = place v n + 1 := by
  obtain ⟨b, hb⟩ := exists_squeeze_cons (h.take_right n)
  rw [place, List.take_succ_cons, hb, List.length_cons, place]

theorem place_cons_of_run (hc : isGap c = true) (hv : v.head?.any isGap = true) (hn : n ≠ 0) :
    place (c :: v) (n + 1) = place v n := by
  have htake : (v.take n).head?.any isGap = true := by rwa [List.head?_take, if_neg hn]
  rw [place, List.take_succ_cons, squeeze_cons_of_run hc htake, place]

theorem SeamAt.place_add (h : SeamAt text n) (m : Nat) :
    place text (n + m) = place text n + place (text.drop n) m := by
  have hplace := place_append h.seam m
  rwa [List.take_append_drop, List.length_take_of_le h.le_length] at hplace

theorem SeamAt.add (h : SeamAt text n) (hm : SeamAt (text.drop n) m) : SeamAt text (n + m) := by
  have hseam := seamAt_append h.seam hm
  rwa [List.take_append_drop, List.length_take_of_le h.le_length] at hseam

end

/-! ## Elastic measures -/

/-- **A measure of texts takes no account of the width of gaps**: it measures the same in
the squeezed text, squeezed, and what it measures ends at a seam. -/
structure Elastic (length? : List Char → Option Nat) (text : List Char) : Prop where
  squeeze : length? (squeeze text) = (length? text).map (place text)
  seamAt : ∀ n, length? text = some n → SeamAt text n

namespace Elastic

variable {length? : List Char → Option Nat} {text : List Char}

/-- What measures texts without gaps. -/
theorem of_gapless (hsqueeze : length? (UmlMarkup.squeeze text) = length? text)
    (h : ∀ n, length? text = some n → n ≤ text.length ∧ Gapless (text.take n)) :
    Elastic length? text := by
  refine ⟨?_, fun n hn => seamAt_of_gapless (h n hn).1 (h n hn).2⟩
  rw [hsqueeze]
  cases hn : length? text with
  | none => rfl
  | some n => rw [Option.map_some, place_of_gapless (h n hn).1 (h n hn).2]

/-- A condition on what follows may be added if it takes no account of gaps either. -/
theorem filter (h : Elastic length? text) {p : List Char → Nat → Bool}
    (hp : ∀ n, SeamAt text n → p (UmlMarkup.squeeze text) (place text n) = p text n) :
    Elastic (fun t => (length? t).filter (p t)) text := by
  refine ⟨?_, fun n hn => h.seamAt n (Option.filter_eq_some_iff.1 hn).1⟩
  rw [h.squeeze]
  cases hn : length? text with
  | none => rfl
  | some n =>
    rw [Option.map_some, Option.filter_some, Option.filter_some, hp n (h.seamAt n hn)]
    split <;> rfl

/-- What measures nothing in either text. -/
theorem of_none (hlong : length? text = none)
    (hshort : length? (UmlMarkup.squeeze text) = none) : Elastic length? text :=
  ⟨by rw [hshort, hlong]; rfl, fun n hn => by rw [hlong] at hn; cases hn⟩

/-- What is measured behind a first part, to which a gap may belong. -/
theorem of_append {behind? : List Char → Option Nat} {u v : List Char}
    (htext : u ++ v = text) (hseam : Seam u v) (h : Elastic behind? v)
    (hlong : length? text = (behind? v).map (u.length + ·))
    (hshort : length? (UmlMarkup.squeeze text)
      = (behind? (UmlMarkup.squeeze v)).map ((UmlMarkup.squeeze u).length + ·)) :
    Elastic length? text := by
  subst htext
  refine ⟨?_, fun n hn => ?_⟩
  · rw [hshort, hlong, h.squeeze, Option.map_map, Option.map_map]
    congr 1
    funext n
    exact (place_append hseam n).symm
  · rw [hlong] at hn
    obtain ⟨k, hk, rfl⟩ := Option.map_eq_some_iff.1 hn
    exact seamAt_append hseam (h.seamAt k hk)

end Elastic

/-- The longest of several elastic matches is elastic. -/
theorem elastic_longest? {α : Type} {length? : α → List Char → Option Nat}
    {alternatives : List α} {text : List Char}
    (h : ∀ a ∈ alternatives, Elastic (length? a) text) :
    Elastic (fun t => Pattern.longest? (fun a => length? a t) alternatives) text := by
  refine ⟨?_, fun n hn => ?_⟩
  · have hlengths : alternatives.filterMap (fun a => length? a (squeeze text))
        = (alternatives.filterMap fun a => length? a text).map (place text) := by
      rw [List.map_filterMap]
      exact List.filterMap_congr fun a ha => (h a ha).squeeze
    rw [Pattern.longest?, hlengths, max?_map_of_le, Pattern.longest?]
    intro m hm n hn hle
    obtain ⟨a, ha, hm⟩ := List.mem_filterMap.1 hm
    obtain ⟨b, hb, hn⟩ := List.mem_filterMap.1 hn
    exact ((h a ha).seamAt m hm).place_le_place hle ((h b hb).seamAt n hn).le_length
  · obtain ⟨a, ha, hn⟩ := Pattern.longest?_mem hn
    exact (h a ha).seamAt n hn

/-! ## Searching -/

section

variable {marker text : List Char}

theorem indexOf?_eq_zero (h : marker.isPrefixOf text = true) : indexOf? marker text = some 0 := by
  cases text with
  | nil => rw [indexOf?, if_pos h]
  | cons c rest => rw [indexOf?, if_pos h]

@[simp] theorem Solid.any_head?_isGap (h : Solid marker) (text : List Char) :
    (marker ++ text).head?.any isGap = false := by
  obtain ⟨c, more, rfl⟩ := List.exists_cons_of_ne_nil h.1
  exact h.2.gapless c List.mem_cons_self

/-- What is found stands where it is found. -/
theorem drop_of_indexOf? {n : Nat} (h : indexOf? marker text = some n) :
    n ≤ text.length ∧ marker <+: text.drop n := by
  obtain ⟨before, after, rfl, rfl⟩ := exists_append_of_indexOf? h
  refine ⟨by simp, ?_⟩
  rw [List.drop_left]
  exact List.prefix_append _ _

/-- A marker does not begin with a gap, so it is never found within a run. -/
theorem indexOf?_squeeze (hmarker : Solid marker) (text : List Char) :
    indexOf? marker (squeeze text) = (indexOf? marker text).map (place text) := by
  induction text with
  | nil =>
    obtain ⟨c, more, rfl⟩ := List.exists_cons_of_ne_nil hmarker.1
    rfl
  | cons c rest ih =>
    have hpre := isPrefixOf_squeeze hmarker.2.gapless (c :: rest)
    by_cases hfound : marker.isPrefixOf (c :: rest) = true
    · rw [indexOf?_eq_zero hfound, indexOf?_eq_zero (hpre.trans hfound)]
      rfl
    · by_cases hseam : Seam [c] rest
      · obtain ⟨b, hb⟩ := exists_squeeze_cons hseam
        rw [hb] at hpre ⊢
        rw [indexOf?, hpre, if_neg hfound, ih, indexOf?, if_neg hfound, Option.map_map,
          Option.map_map]
        congr 1
        funext n
        exact (place_cons hseam n).symm
      · -- the character goes into the run behind it, and the marker is not found there
        obtain ⟨hc, hrun⟩ := run_of_not_seam hseam
        rw [squeeze_cons_of_run hc hrun, ih, indexOf?, if_neg hfound, Option.map_map]
        cases hn : indexOf? marker rest with
        | none => rfl
        | some n =>
          have hpos : n ≠ 0 := by
            rintro rfl
            obtain ⟨after, hafter⟩ := (drop_of_indexOf? hn).2
            rw [List.drop_zero] at hafter
            rw [← hafter, hmarker.any_head?_isGap] at hrun
            cases hrun
          rw [Option.map_some, Option.map_some, Function.comp_apply,
            place_cons_of_run hc hrun hpos]

theorem elastic_indexOf? (hmarker : Solid marker) (text : List Char) :
    Elastic (indexOf? marker) text := by
  refine ⟨indexOf?_squeeze hmarker text, fun n hn => ?_⟩
  obtain ⟨hle, after, hafter⟩ := drop_of_indexOf? hn
  exact ⟨hle, seam_of_head (by rw [← hafter]; exact hmarker.any_head?_isGap after)⟩

/-- The end of a marker may be measured in place of its start. -/
theorem Elastic.add_marker {length? : List Char → Option Nat} (h : Elastic length? text)
    (hmarker : Solid marker) (hfound : ∀ n, length? text = some n → marker <+: text.drop n) :
    Elastic (fun t => (length? t).map (· + marker.length)) text := by
  have hend : ∀ n, length? text = some n →
      place text (n + marker.length) = place text n + marker.length
        ∧ SeamAt text (n + marker.length) := fun n hn => by
    obtain ⟨after, hafter⟩ := hfound n hn
    have hseam := h.seamAt n hn
    have hle : marker.length ≤ (text.drop n).length := by rw [← hafter]; simp
    have htake : Gapless ((text.drop n).take marker.length) := by
      rw [← hafter, List.take_left]
      exact hmarker.2.gapless
    rw [hseam.place_add, place_of_gapless hle htake]
    exact ⟨rfl, hseam.add (seamAt_of_gapless hle htake)⟩
  refine ⟨?_, fun n hn => ?_⟩
  · rw [h.squeeze]
    cases hn : length? text with
    | none => rfl
    | some n => rw [Option.map_some, Option.map_some, Option.map_some, Option.map_some,
        (hend n hn).1]
  · obtain ⟨k, hk, rfl⟩ := Option.map_eq_some_iff.1 hn
    exact (hend k hk).2

theorem elastic_past? (hmarker : Solid marker) (text : List Char) :
    Elastic (past? marker) text := by
  have h := (elastic_indexOf? hmarker text).add_marker hmarker
    fun n hn => (drop_of_indexOf? hn).2
  have hpast : past? marker = fun t => (indexOf? marker t).map (· + marker.length) :=
    funext fun t => if_neg (by simpa using hmarker.1)
  rwa [hpast]

end

/-! ## Phrases -/

/-- A phrase goes on behind the gap at the start of the text. -/
theorem tailLength?_cons (w : List Char) (ws : List (List Char)) (text : List Char) :
    Phrase.tailLength? (w :: ws) text
      = if text.takeWhile isGap ≠ [] ∧ w.isPrefixOf (text.dropWhile isGap) = true then
          (Phrase.tailLength? ws ((text.dropWhile isGap).drop w.length)).map
            ((text.takeWhile isGap ++ w).length + ·)
        else none := by
  simp only [Phrase.tailLength?, drop_length_takeWhile, List.length_append, ne_eq,
    List.length_eq_zero_iff]

/-- Of a phrase only the gaps between its words are squeezed. -/
theorem elastic_tailLength? {ws : List (List Char)} (hws : ∀ w ∈ ws, Solid w)
    (text : List Char) : Elastic (Phrase.tailLength? ws) text := by
  induction ws generalizing text with
  | nil => exact ⟨rfl, fun n hn => Option.some.inj hn ▸ seamAt_zero text⟩
  | cons w ws ih =>
    obtain ⟨hw, hws⟩ := List.forall_mem_cons.1 hws
    have hlong := tailLength?_cons w ws text
    have hshort := tailLength?_cons w ws (squeeze text)
    rw [takeWhile_squeeze blindToGaps_isGap, dropWhile_squeeze blindToGaps_isGap,
      isPrefixOf_squeeze hw.2.gapless] at hshort
    have hgoes : (squeeze (text.takeWhile isGap) ≠ [] ∧ w.isPrefixOf (text.dropWhile isGap) = true)
        ↔ (text.takeWhile isGap ≠ [] ∧ w.isPrefixOf (text.dropWhile isGap) = true) :=
      and_congr_left' (not_congr squeeze_eq_nil_iff)
    by_cases hgo : text.takeWhile isGap ≠ [] ∧ w.isPrefixOf (text.dropWhile isGap) = true
    · obtain ⟨left, hleft⟩ := List.isPrefixOf_iff_prefix.1 hgo.2
      have hgap : squeeze (text.takeWhile isGap ++ w) = squeeze (text.takeWhile isGap) ++ w := by
        have hhead := hw.any_head?_isGap []
        rw [List.append_nil] at hhead
        rw [squeeze_append (seam_of_head hhead), squeeze_of_gapless hw.2.gapless]
      have hseam : Seam (text.takeWhile isGap ++ w) left :=
        (seam_of_gapless hw.2.gapless left).append_left hw.1 _
      refine .of_append ?_ hseam (ih hws left) ?_ ?_
      · rw [List.append_assoc, hleft, List.takeWhile_append_dropWhile]
      · rw [hlong, if_pos hgo, ← hleft, List.drop_left]
      · simp [hshort, hgoes.2 hgo, ← hleft, hw.2.gapless, hgap]
    · exact .of_none (hlong.trans (if_neg hgo)) (hshort.trans (if_neg (mt hgoes.1 hgo)))

/-- **A phrase takes no account of the width of gaps.** -/
theorem Phrase.elastic {p : Phrase} (hp : ∀ w ∈ p.words, Solid w) (text : List Char) :
    Elastic p.matchLength? text := by
  obtain ⟨hfirst, hmore⟩ := List.forall_mem_cons.1 (show ∀ w ∈ p.first :: p.more, Solid w from hp)
  have hwords : Elastic p.wordsLength? text := by
    have hpre := isPrefixOf_squeeze hfirst.2.gapless text
    by_cases hfound : p.first.isPrefixOf text = true
    · obtain ⟨left, rfl⟩ := List.isPrefixOf_iff_prefix.1 hfound
      refine .of_append rfl (seam_of_gapless hfirst.2.gapless left)
        (elastic_tailLength? hmore left) ?_ ?_
      · rw [wordsLength?, if_pos hfound, List.drop_left]
      · simp [wordsLength?, hfirst.2.gapless]
    · exact .of_none (by rw [wordsLength?, if_neg hfound])
        (by rw [wordsLength?, hpre, if_neg hfound])
  refine hwords.filter (p := fun t n => !(p.endsInWord && (t.drop n).head?.any isWord))
    fun n hn => ?_
  rw [hn.drop_place, any_head?_squeeze (blindToGaps_of_blank fun _ => isWord_eq_false_of_isBlank)]

/-! ## Patterns -/

namespace Pattern

theorem elastic_literalLength? {w : List Char} (hw : Unblank w) (text : List Char) :
    Elastic (fun t => literalLength? t w) text := by
  refine .of_gapless ?_ fun n hn => ⟨literalLength?_le hn, ?_⟩
  · simp [literalLength?, hw.gapless]
  · rw [take_of_literalLength? hn]
    exact hw.gapless

/-- A piece of text between brackets is looked for behind the opening bracket. -/
theorem delimitedLength?_append_left (opener closer inner : List Char) :
    delimitedLength? opener closer (opener ++ inner)
      = if inner.head?.any isBlank then none
        else (((indexOf? closer inner).filter (0 < ·)).map (· + closer.length)).map
          (opener.length + ·) := by
  rw [delimitedLength?, if_pos (List.isPrefixOf_iff_prefix.2 (List.prefix_append _ _)),
    List.drop_left]
  dsimp only
  split
  · rfl
  · cases indexOf? closer inner with
    | none => rfl
    | some n =>
      cases n with
      | zero => rfl
      | succ n => simp [Option.filter, Nat.add_assoc]

theorem elastic_delimitedLength? {opener closer : List Char} (hopener : Unblank opener)
    (hcloser : Solid closer) (text : List Char) :
    Elastic (delimitedLength? opener closer) text := by
  have hpre := isPrefixOf_squeeze hopener.gapless text
  by_cases hfound : opener.isPrefixOf text = true
  · obtain ⟨inner, rfl⟩ := List.isPrefixOf_iff_prefix.1 hfound
    have hlong := delimitedLength?_append_left opener closer inner
    have hshort := delimitedLength?_append_left opener closer (squeeze inner)
    rw [any_head?_squeeze blindToGaps_isBlank,
      ← squeeze_append_of_gapless hopener.gapless] at hshort
    by_cases hblank : inner.head?.any isBlank = true
    · exact .of_none (hlong.trans (if_pos hblank)) (hshort.trans (if_pos hblank))
    · have hinner : Elastic (fun t => ((indexOf? closer t).filter (0 < ·)).map
          (· + closer.length)) inner := by
        refine ((elastic_indexOf? hcloser inner).filter (p := fun _ n => 0 < n)
          fun n hn => ?_).add_marker hcloser fun n hn => ?_
        · exact decide_eq_decide.2 hn.place_pos_iff
        · exact (drop_of_indexOf? (Option.filter_eq_some_iff.1 hn).1).2
      refine .of_append rfl (seam_of_gapless hopener.gapless inner) hinner
        (hlong.trans (if_neg hblank)) ?_
      rw [hshort, if_neg hblank, squeeze_of_gapless hopener.gapless]
  · exact .of_none (by rw [delimitedLength?, if_neg hfound])
      (by rw [delimitedLength?, hpre, if_neg hfound])

theorem gapless_take_digitCount (text : List Char) : Gapless (text.take (digitCount text)) := by
  rw [digitCount, ← List.prefix_iff_eq_take.1 (List.takeWhile_prefix _)]
  exact fun c hc => eq_false_of_ne_true fun hgap => Bool.noConfusion
    ((isDigit_eq_false_of_isBlank (isBlank_of_isGap hgap)).symm.trans (List.mem_takeWhile_imp hc))

@[simp] theorem digitCount_squeeze (text : List Char) :
    digitCount (squeeze text) = digitCount text := by
  have hdigits := gapless_take_digitCount text
  rw [digitCount, ← List.prefix_iff_eq_take.1 (List.takeWhile_prefix _)] at hdigits
  rw [digitCount, takeWhile_squeeze (blindToGaps_of_blank fun _ => isDigit_eq_false_of_isBlank),
    squeeze_of_gapless hdigits, digitCount]

@[simp] theorem fractionLength_squeeze (text : List Char) :
    fractionLength (squeeze text) = fractionLength text := by
  cases text with
  | nil => rfl
  | cons c rest =>
    cases hc : isGap c with
    | false =>
      rw [squeeze_cons hc, fractionLength_cons, digitCount_squeeze, fractionLength_cons]
    | true =>
      obtain ⟨more, hmore⟩ := exists_squeeze_eq_space hc rest
      rw [hmore, fractionLength_cons, fractionLength_cons, if_neg (by decide),
        if_neg (ne_of_isBlank (isBlank_of_isGap hc) (by decide))]

theorem gapless_take_fractionLength (text : List Char) :
    Gapless (text.take (fractionLength text)) := by
  cases text with
  | nil => exact List.forall_mem_nil _
  | cons c rest =>
    rw [fractionLength_cons]
    split
    · next hc =>
      split
      · exact List.forall_mem_nil _
      · rw [List.take_succ_cons, hc]
        exact List.forall_mem_cons.2 ⟨rfl, gapless_take_digitCount rest⟩
    · exact List.forall_mem_nil _

/-- There are no gaps in a number. -/
theorem elastic_numberLength? (text : List Char) : Elastic numberLength? text := by
  have hwhole := digitCount_le text
  have hfraction := fractionLength_le (text.drop (digitCount text))
  rw [List.length_drop] at hfraction
  have hn : digitCount text + fractionLength (text.drop (digitCount text)) ≤ text.length := by
    omega
  have hgapless : Gapless (text.take
      (digitCount text + fractionLength (text.drop (digitCount text)))) := by
    rw [List.take_add]
    exact List.forall_mem_append.2
      ⟨gapless_take_digitCount text, gapless_take_fractionLength _⟩
  refine .of_gapless ?_ fun n hnumber => ?_
  · rw [numberLength?, numberLength?, digitCount_squeeze,
      drop_squeeze_of_gapless hwhole (gapless_take_digitCount text), fractionLength_squeeze,
      drop_squeeze_of_gapless hn hgapless,
      any_head?_squeeze (blindToGaps_of_blank fun _ => isWord_eq_false_of_isBlank)]
  · unfold numberLength? at hnumber
    dsimp only at hnumber
    split at hnumber
    · cases hnumber
    · split at hnumber
      · cases hnumber
      · cases hnumber
        exact ⟨hn, hgapless⟩

/-- Nor between a `#` and what makes it a color. -/
theorem elastic_colorLength? (text : List Char) : Elastic colorLength? text := by
  cases text with
  | nil => exact .of_none rfl rfl
  | cons c rest =>
    cases hc : isGap c with
    | false =>
      refine .of_gapless ?_ fun n hn => ?_
      · rw [squeeze_cons hc, colorLength?_cons,
          any_head?_squeeze (blindToGaps_of_blank fun _ => isAlphanum_eq_false_of_isBlank),
          colorLength?_cons]
      · rw [colorLength?_cons] at hn
        split at hn
        · cases hn
          exact ⟨Nat.succ_le_succ (Nat.zero_le _),
            List.forall_mem_cons.2 ⟨hc, List.forall_mem_nil _⟩⟩
        · cases hn
    | true =>
      obtain ⟨more, hmore⟩ := exists_squeeze_eq_space hc rest
      refine .of_none ?_ ?_
      · rw [colorLength?_cons, if_neg]
        exact fun h => ne_of_isBlank (isBlank_of_isGap hc) (by decide) h.1
      · rw [hmore, colorLength?_cons, if_neg]
        exact fun h => absurd h.1 (by decide)

/-- **A pattern takes no account of the width of gaps.** -/
theorem elastic {p : Pattern} (hp : p.Tight) (text : List Char) :
    Elastic p.matchLength? text := by
  cases p with
  | literal w => exact elastic_literalLength? hp text
  | keywords phrases => exact elastic_longest? fun ph hph => Phrase.elastic (hp ph hph) text
  | glyphs texts => exact elastic_longest? fun g hg => elastic_literalLength? (hp g hg) text
  | delimited opener closer => exact elastic_delimitedLength? hp.1 hp.2 text
  | number => exact elastic_numberLength? text
  | color => exact elastic_colorLength? text

theorem elastic_properLength? {p : Pattern} (hp : p.Tight) (text : List Char) :
    Elastic p.properLength? text :=
  (elastic hp text).filter (p := fun _ n => 0 < n) fun _ hn =>
    decide_eq_decide.2 hn.place_pos_iff

@[simp] theorem breaksWord_squeeze {p : Pattern} (hp : p.Tight) (text : List Char) :
    p.breaksWord (squeeze text) = p.breaksWord text := by
  cases p with
  | glyphs texts =>
    exact any_congr_of_mem fun g hg => by rw [isPrefixOf_squeeze (hp g hg).gapless]
  | _ => rfl

end Pattern

end UmlMarkup
