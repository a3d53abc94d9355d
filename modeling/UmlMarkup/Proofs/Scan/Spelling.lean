import Mathlib.Data.List.Basic
import UmlMarkup.Pattern
import UmlMarkup.Proofs.Text.Runs

/-!
# The texts that a pattern matches

The width of the gaps in a keyword phrase is immaterial, so a phrase matches many
texts. `squeeze` reduces a text to one space for every run of spaces and tabs, and
the phrase matches exactly one text up to that: its own (`squeeze_take_of_phrase`).
The texts of literals and glyphs are matched as they are.

So what a token says can be told from its rule: the squeezed text of a match is one
of the finitely many `Pattern.spellings`, and a statement about all tokens of a
dialect becomes one about its table.
-/

namespace UmlMarkup

/-! ## Squeezing gaps -/

/-- The text with a single space for every run of spaces and tabs. -/
def squeeze : List Char → List Char
  | [] => []
  | c :: rest =>
    if isGap c then if rest.head?.any isGap then squeeze rest else ' ' :: squeeze rest
    else c :: squeeze rest

/-- Whether there is neither a space nor a tab in the text. -/
def Gapless (text : List Char) : Prop := ∀ c ∈ text, isGap c = false

-- The list is gone through, not the type of characters, which is finite too.
instance : DecidablePred Gapless := fun text =>
  List.decidableBAll (fun c => isGap c = false) text

section

variable {c : Char} {u v rest : List Char}

@[simp] theorem squeeze_cons (hc : isGap c = false) (rest : List Char) :
    squeeze (c :: rest) = c :: squeeze rest := by
  rw [squeeze, hc, if_neg Bool.false_ne_true]

/-- Within a run of gaps. -/
theorem squeeze_cons_of_run (hc : isGap c = true) (hrest : rest.head?.any isGap = true) :
    squeeze (c :: rest) = squeeze rest := by
  rw [squeeze, if_pos hc, if_pos hrest]

/-- At the end of one. -/
theorem squeeze_cons_of_gap (hc : isGap c = true) (hrest : rest.head?.any isGap = false) :
    squeeze (c :: rest) = ' ' :: squeeze rest := by
  rw [squeeze, if_pos hc, hrest, if_neg Bool.false_ne_true]

/-- The first character stays, a gap as a space. -/
@[simp] theorem head?_squeeze (text : List Char) :
    (squeeze text).head? = text.head?.map fun c => if isGap c then ' ' else c := by
  induction text with
  | nil => rfl
  | cons c rest ih =>
    cases hc : isGap c with
    | false => simp [squeeze_cons hc, hc]
    | true =>
      cases hrest : rest.head?.any isGap with
      | false => simp [squeeze_cons_of_gap hc hrest, hc]
      | true =>
        obtain ⟨b, hb, hgap⟩ := (Option.any_eq_true _ _).1 hrest
        simp [squeeze_cons_of_run hc hrest, ih, hb, hgap, hc]

@[simp] theorem squeeze_of_gapless (h : Gapless u) : squeeze u = u := by
  induction u with
  | nil => rfl
  | cons c u ih =>
    obtain ⟨hc, hu⟩ := List.forall_mem_cons.1 h
    simp [hc, ih hu]

/-- **The cut between two texts does not fall into a run of gaps.** -/
def Seam (u v : List Char) : Prop := u.getLast?.any isGap = true → v.head?.any isGap = false

theorem seam_nil (v : List Char) : Seam [] v := fun h => Bool.noConfusion h

theorem seam_of_head (hv : v.head?.any isGap = false) : Seam u v := fun _ => hv

theorem seam_of_gapless (hu : Gapless u) (v : List Char) : Seam u v := fun hlast => by
  obtain ⟨c, hc, hgap⟩ := (Option.any_eq_true _ _).1 hlast
  exact Bool.noConfusion (hgap.symm.trans (hu c (List.mem_of_mem_getLast? hc)))

/-- Only the end of the first part counts. -/
theorem Seam.append_left (hu : u ≠ []) (h : Seam u v) (before : List Char) :
    Seam (before ++ u) v := by
  rwa [Seam, List.getLast?_append_of_ne_nil before hu]

/-- And of the second part the start. -/
theorem Seam.take_right (h : Seam u v) (n : Nat) : Seam u (v.take n) := fun hlast => by
  rw [List.head?_take]
  split
  · rfl
  · exact h hlast

/-- **A text may be squeezed in two parts at a seam.** -/
theorem squeeze_append (h : Seam u v) : squeeze (u ++ v) = squeeze u ++ squeeze v := by
  induction u with
  | nil => rfl
  | cons c u ih =>
    cases hc : isGap c with
    | false =>
      have hu : Seam u v := by
        cases u with
        | nil => exact seam_nil v
        | cons b u => exact h
      simp [hc, ih hu]
    | true =>
      cases u with
      | nil =>
        have hv : v.head?.any isGap = false := h hc
        rw [List.singleton_append, squeeze_cons_of_gap hc hv, squeeze_cons_of_gap hc rfl]
        rfl
      | cons b u =>
        have hu : squeeze (b :: (u ++ v)) = squeeze (b :: u) ++ squeeze v := ih h
        rw [List.cons_append, List.cons_append]
        cases hb : isGap b with
        | true =>
          have hrun : ∀ more : List Char, squeeze (c :: b :: more) = squeeze (b :: more) :=
            fun _ => squeeze_cons_of_run hc hb
          rw [hrun, hrun, hu]
        | false =>
          have hgap : ∀ more : List Char, squeeze (c :: b :: more) = ' ' :: squeeze (b :: more) :=
            fun _ => squeeze_cons_of_gap hc hb
          rw [hgap, hgap, hu, List.cons_append]

@[simp] theorem squeeze_append_of_gapless (h : Gapless u) (v : List Char) :
    squeeze (u ++ v) = u ++ squeeze v := by
  rw [squeeze_append (seam_of_gapless h v), squeeze_of_gapless h]

theorem squeeze_append_cons (hc : isGap c = false) (u v : List Char) :
    squeeze (u ++ c :: v) = squeeze u ++ c :: squeeze v := by
  rw [squeeze_append (seam_of_head (show (c :: v).head?.any isGap = false from hc)),
    squeeze_cons hc]

end

/-- A run of spaces and tabs becomes one space. -/
theorem squeeze_gap_append {gap text : List Char} (hne : gap ≠ [])
    (hgap : ∀ c ∈ gap, isGap c = true) (htext : text.head?.any isGap = false) :
    squeeze (gap ++ text) = ' ' :: squeeze text := by
  induction gap with
  | nil => exact absurd rfl hne
  | cons c gap ih =>
    obtain ⟨hc, hgap⟩ := List.forall_mem_cons.1 hgap
    rw [List.cons_append, squeeze, if_pos hc]
    cases gap with
    | nil => rw [List.nil_append, htext, if_neg Bool.false_ne_true]
    | cons b gap =>
      rw [if_pos (show ((b :: gap) ++ text).head?.any isGap = true from hgap b List.mem_cons_self),
        ih (List.cons_ne_nil b gap) hgap]

/-- What is no gap stays. -/
theorem mem_squeeze {c : Char} {text : List Char} (h : c ∈ text) (hc : isGap c = false) :
    c ∈ squeeze text := by
  obtain ⟨before, after, rfl⟩ := List.append_of_mem h
  rw [squeeze_append_cons hc]
  exact List.mem_append_right _ List.mem_cons_self

/-- The last character stays, a gap as a space. -/
@[simp] theorem getLast?_squeeze (text : List Char) :
    (squeeze text).getLast? = text.getLast?.map fun c => if isGap c then ' ' else c := by
  induction text with
  | nil => rfl
  | cons c rest ih =>
    cases rest with
    | nil =>
      rw [squeeze]
      by_cases hc : isGap c = true <;> simp [squeeze, hc]
    | cons b rest =>
      rw [List.getLast?_cons_cons, ← ih]
      have hne : squeeze (b :: rest) ≠ [] := fun he => by
        rw [he, List.getLast?_cons] at ih
        cases ih
      have hcons : ∀ a, (a :: squeeze (b :: rest)).getLast? = (squeeze (b :: rest)).getLast? :=
        fun a => by
          obtain ⟨e, text, he⟩ := List.exists_cons_of_ne_nil hne
          rw [he, List.getLast?_cons_cons]
      rw [squeeze]
      split
      · split
        · rfl
        · exact hcons ' '
      · exact hcons c

/-- Where there is a gap a space is left of it. -/
theorem gapless_of_space_notMem {text : List Char} (h : ' ' ∉ squeeze text) : Gapless text := by
  induction text with
  | nil => exact List.forall_mem_nil _
  | cons c rest ih =>
    rw [squeeze] at h
    by_cases hc : isGap c = true
    · rw [if_pos hc] at h
      by_cases hrest : rest.head?.any isGap = true
      · -- a run of gaps goes on, and ends somewhere
        rw [if_pos hrest] at h
        obtain ⟨b, hb, hgap⟩ := (Option.any_eq_true _ _).1 hrest
        have hclean := ih h b (List.mem_of_mem_head? hb)
        exact Bool.noConfusion (hgap.symm.trans hclean)
      · rw [if_neg hrest] at h
        exact absurd List.mem_cons_self h
    · rw [if_neg hc] at h
      exact List.forall_mem_cons.2
        ⟨eq_false_of_ne_true hc, ih fun hm => h (List.mem_cons_of_mem c hm)⟩

/-- Only the word itself is squeezed to a word without gaps. -/
theorem squeeze_eq_iff {word : List Char} (h : Gapless word) (text : List Char) :
    squeeze text = word ↔ text = word := by
  refine ⟨fun hs => ?_, fun heq => (congrArg squeeze heq).trans (squeeze_of_gapless h)⟩
  have htext : Gapless text := gapless_of_space_notMem fun hm =>
    absurd (h ' ' (hs ▸ hm)) (by decide)
  rwa [squeeze_of_gapless htext] at hs

/-! ## Phrases -/

/-- The words of the phrase are not empty and hold neither spaces nor tabs. -/
def Phrase.Plain (p : Phrase) : Prop := ∀ w ∈ p.words, w ≠ [] ∧ Gapless w

instance : DecidablePred Phrase.Plain := fun p =>
  inferInstanceAs (Decidable (∀ w ∈ p.words, w ≠ [] ∧ Gapless w))

/-- Each further word of a phrase stands after a gap. -/
theorem exists_gap_of_tailLength? {w : List Char} {ws : List (List Char)} {text : List Char}
    {n : Nat} (h : Phrase.tailLength? (w :: ws) text = some n) :
    ∃ gap left k, gap ≠ [] ∧ (∀ c ∈ gap, isGap c = true) ∧ text = gap ++ (w ++ left)
      ∧ Phrase.tailLength? ws left = some k ∧ n = gap.length + (w.length + k) := by
  simp only [Phrase.tailLength?, drop_length_takeWhile] at h
  split at h
  · next hgap =>
    obtain ⟨k, hk, rfl⟩ := Option.map_eq_some_iff.1 h
    obtain ⟨left, hleft⟩ := List.isPrefixOf_iff_prefix.1 hgap.2
    rw [← hleft, List.drop_left] at hk
    refine ⟨text.takeWhile isGap, left, k, List.length_pos_iff.1 (Nat.pos_of_ne_zero hgap.1),
      List.all_eq_true.1 List.all_takeWhile, ?_, hk, Nat.add_assoc ..⟩
    rw [hleft, List.takeWhile_append_dropWhile]
  · cases h

theorem squeeze_take_of_tailLength? {ws : List (List Char)} {text : List Char} {n : Nat}
    (hws : ∀ w ∈ ws, w ≠ [] ∧ Gapless w) (h : Phrase.tailLength? ws text = some n) :
    squeeze (text.take n) = ws.flatMap (' ' :: ·) := by
  induction ws generalizing text n with
  | nil =>
    cases h
    rfl
  | cons w ws ih =>
    obtain ⟨⟨hne, hw⟩, hws⟩ := List.forall_mem_cons.1 hws
    obtain ⟨gap, left, k, hgapne, hgap, rfl, hk, rfl⟩ := exists_gap_of_tailLength? h
    have hhead : (w ++ left.take k).head?.any isGap = false := by
      cases w with
      | nil => exact absurd rfl hne
      | cons c w => exact hw c List.mem_cons_self
    rw [List.take_length_add_append, List.take_length_add_append,
      squeeze_gap_append hgapne hgap hhead, squeeze_append_of_gapless hw, ih hws hk,
      List.flatMap_cons, List.cons_append]

/-- **A phrase matches its own text**, up to the width of the gaps. -/
theorem squeeze_take_of_phrase {p : Phrase} (hp : p.Plain) {text : List Char} {n : Nat}
    (h : p.matchLength? text = some n) : squeeze (text.take n) = p.text := by
  obtain ⟨hfirst, hmore⟩ := List.forall_mem_cons.1 (show ∀ w ∈ p.first :: p.more, _ from hp)
  obtain ⟨hwords, -⟩ := Option.filter_eq_some_iff.1 h
  unfold Phrase.wordsLength? at hwords
  split at hwords
  · next hpre =>
    obtain ⟨k, hk, rfl⟩ := Option.map_eq_some_iff.1 hwords
    obtain ⟨left, rfl⟩ := List.isPrefixOf_iff_prefix.1 hpre
    rw [List.drop_left] at hk
    rw [List.take_length_add_append, squeeze_append_of_gapless hfirst.2,
      squeeze_take_of_tailLength? hmore hk, Phrase.text]
  · cases hwords

/-! ## Patterns -/

namespace Pattern

/-- The texts that the pattern matches, up to the width of gaps, for a pattern that
lists them. -/
def spellings : Pattern → List (List Char)
  | literal text => [squeeze text]
  | keywords phrases => phrases.map Phrase.text
  | glyphs texts => texts.map squeeze
  | _ => []

/-- The pattern lists the texts that it matches. -/
def IsSpelled : Pattern → Prop
  | literal _ | glyphs _ => True
  | keywords phrases => ∀ p ∈ phrases, p.Plain
  | _ => False

instance : DecidablePred IsSpelled
  | literal _ | glyphs _ => .isTrue trivial
  | keywords phrases => inferInstanceAs (Decidable (∀ p ∈ phrases, p.Plain))
  | delimited .. | number | color => .isFalse id

theorem take_of_literalLength? {rest text : List Char} {n : Nat}
    (h : literalLength? rest text = some n) : rest.take n = text := by
  unfold literalLength? at h
  split at h
  · next hp =>
    cases h
    obtain ⟨left, rfl⟩ := List.isPrefixOf_iff_prefix.1 hp
    exact List.take_left
  · cases h

/-- **What a pattern matches is one of its texts**, up to the width of gaps. -/
theorem squeeze_take_mem_spellings {p : Pattern} (hp : p.IsSpelled) {rest : List Char} {n : Nat}
    (h : p.matchLength? rest = some n) : squeeze (rest.take n) ∈ p.spellings := by
  cases p with
  | literal text => exact List.mem_singleton.2 (congrArg squeeze (take_of_literalLength? h))
  | keywords phrases =>
    obtain ⟨ph, hmem, hph⟩ := longest?_mem h
    exact List.mem_map.2 ⟨ph, hmem, (squeeze_take_of_phrase (hp ph hmem) hph).symm⟩
  | glyphs texts =>
    obtain ⟨g, hmem, hg⟩ := longest?_mem h
    exact List.mem_map.2 ⟨g, hmem, congrArg squeeze (take_of_literalLength? hg).symm⟩
  | delimited opener closer => exact hp.elim
  | number => exact hp.elim
  | color => exact hp.elim

end Pattern

end UmlMarkup
