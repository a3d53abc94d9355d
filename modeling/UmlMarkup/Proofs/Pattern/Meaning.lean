import UmlMarkup.Pattern.Bytes
import UmlMarkup.Proofs.Scan.Squeezing

/-!
# What a pattern means

A pattern is matched by measuring: the matchers count characters, skip gaps, and take the
greatest of several lengths. What they look for can be said without any counting, as a
property of the text that is matched, `m`, and of the text behind it, `left`
(`Pattern.Means`). This module proves that the two agree, for every pattern and every text:
a match is reported exactly if some first part of the text is what the pattern means there,
and its length is then that of this part (`Pattern.measures`).

Most of what has to be said is in the words *longest* and *first*. Of several keywords, or
several glyphs, the longest wins. A keyword that would end inside a word is no candidate at
all, so that a shorter one may win in its place. Of several closing brackets the first
counts, and an opening bracket that stands before it a second time does not.

Each matcher has one lemma, in the same form (`Measures`), and a choice among alternatives
is measured if each of them is (`measures_longest`).
-/

namespace UmlMarkup

/-! ## Meanings -/

/-- **The longest candidate**: at the start of `m ++ left` no other one is longer. -/
structure Longest (Candidate : List Char → List Char → Prop) (m left : List Char) : Prop where
  candidate : Candidate m left
  longest : ∀ u v, u ++ v = m ++ left → Candidate u v → u.length ≤ m.length

/-- The words with a run of spaces and tabs in front of each. -/
inductive BehindGaps : List (List Char) → List Char → Prop
  | nil : BehindGaps [] []
  | cons {gap w text : List Char} {ws : List (List Char)} (hne : gap ≠ [])
    (hgap : ∀ c ∈ gap, isGap c = true) (h : BehindGaps ws text) :
    BehindGaps (w :: ws) (gap ++ (w ++ text))

/-- **A keyword**: the words of the phrase, joined by runs of spaces and tabs. Where the
phrase ends in a word character, no word goes on behind it. -/
structure Phrase.StandsAs (p : Phrase) (m left : List Char) : Prop where
  words : ∃ text, m = p.first ++ text ∧ BehindGaps p.more text
  boundary : ¬ (p.endsInWord = true ∧ left.head?.any isWord = true)

/-- **A bracketed text**: what is between the brackets is not empty and does not start with a
blank, and the closing bracket is the first one behind the opening bracket. -/
def Bracketed (opener closer m left : List Char) : Prop :=
  ∃ inner, m = opener ++ (inner ++ closer) ∧ inner ≠ [] ∧ inner.head?.any isBlank = false
    ∧ ∀ before after, inner ++ (closer ++ left) = before ++ (closer ++ after) →
      inner.length ≤ before.length

/-- All the digits at the start of `digits ++ rest`. -/
structure LeadingDigits (digits rest : List Char) : Prop where
  digit : ∀ c ∈ digits, c.isDigit = true
  stop : rest.head?.any Char.isDigit = false

/-- **A number**: all the digits at the start, at least one, and a point with all the digits
behind it if there is a digit behind it. No word goes on behind the number. -/
inductive IsNumber : List Char → List Char → Prop
  | whole {digits left : List Char} (hne : digits ≠ []) (hdigits : LeadingDigits digits left)
    (hpoint : ∀ c rest, left = '.' :: c :: rest → c.isDigit = false)
    (hend : left.head?.any isWord = false) : IsNumber digits left
  | fraction {digits places left : List Char} (hne : digits ≠ [])
    (hdigits : LeadingDigits digits ('.' :: (places ++ left))) (hplaces : places ≠ [])
    (hleft : LeadingDigits places left) (hend : left.head?.any isWord = false) :
    IsNumber (digits ++ '.' :: places) left

/-- **What a pattern means** at the start of `m ++ left`. -/
def Pattern.Means : Pattern → List Char → List Char → Prop
  | literal text, m, _ => m = text
  | keywords phrases, m, left => Longest (fun u v => ∃ p ∈ phrases, p.StandsAs u v) m left
  | glyphs texts, m, left => Longest (fun u _ => u ∈ texts) m left
  | delimited opener closer, m, left => Bracketed opener closer m left
  | number, m, left => IsNumber m left
  | color, m, left => m = ['#'] ∧ left.head?.any Char.isAlphanum = true

/-! ## Measures -/

/-- **The matcher measures what is meant**: the lengths that it reports are those of the
texts with that meaning. -/
structure Measures (length? : List Char → Option Nat) (Means : List Char → List Char → Prop) :
    Prop where
  le : ∀ {text n}, length? text = some n → n ≤ text.length
  iff : ∀ m left, length? (m ++ left) = some m.length ↔ Means m left

namespace Measures

variable {length? : List Char → Option Nat} {Means Means' : List Char → List Char → Prop}

/-- A length that is reported cuts the text behind what is meant. -/
theorem exists_append (h : Measures length? Means) {text : List Char} {n : Nat}
    (hn : length? text = some n) : ∃ m left, text = m ++ left ∧ m.length = n ∧ Means m left := by
  have hlen : (text.take n).length = n := List.length_take_of_le (h.le hn)
  refine ⟨text.take n, text.drop n, (List.take_append_drop n text).symm, hlen, ?_⟩
  rw [← h.iff, List.take_append_drop, hlen]
  exact hn

theorem congr (h : Measures length? Means) (hm : ∀ m left, Means m left ↔ Means' m left) :
    Measures length? Means' :=
  ⟨h.le, fun m left => (h.iff m left).trans (hm m left)⟩

end Measures

namespace Pattern

/-- **The longest of several alternatives is measured** if each of them is. -/
theorem measures_longest {α : Type} {length? : α → List Char → Option Nat}
    {Means : α → List Char → List Char → Prop} {alternatives : List α}
    (h : ∀ a ∈ alternatives, Measures (length? a) (Means a)) :
    Measures (fun text => longest? (fun a => length? a text) alternatives)
      (Longest fun u v => ∃ a ∈ alternatives, Means a u v) := by
  refine ⟨fun {text n} hn => ?_, fun m left => ⟨fun hm => ?_, fun hm => ?_⟩⟩
  · obtain ⟨a, ha, hn⟩ := longest?_mem hn
    exact (h a ha).le hn
  · obtain ⟨a, ha, hn⟩ := longest?_mem hm
    refine ⟨⟨a, ha, ((h a ha).iff m left).1 hn⟩, ?_⟩
    rintro u v heq ⟨b, hb, hu⟩
    have hmem : u.length ∈ alternatives.filterMap fun a => length? a (m ++ left) :=
      List.mem_filterMap.2 ⟨b, hb, heq ▸ ((h b hb).iff u v).2 hu⟩
    exact (List.max?_eq_some_iff.1 hm).2 _ hmem
  · obtain ⟨⟨a, ha, hcandidate⟩, hlongest⟩ := hm
    refine List.max?_eq_some_iff.2 ⟨List.mem_filterMap.2
      ⟨a, ha, ((h a ha).iff m left).2 hcandidate⟩, fun n hn => ?_⟩
    obtain ⟨b, hb, hn⟩ := List.mem_filterMap.1 hn
    obtain ⟨u, v, heq, rfl, hu⟩ := (h b hb).exists_append hn
    exact hlongest u v heq.symm ⟨b, hb, hu⟩

/-! ## Literals and glyphs -/

theorem measures_literal (text : List Char) :
    Measures (literalLength? · text) fun m _ => m = text := by
  refine ⟨literalLength?_le, fun m left => ⟨fun h => ?_, ?_⟩⟩
  · rw [← take_of_literalLength? h, List.take_left]
  · rintro rfl
    rw [literalLength?, if_pos (List.isPrefixOf_iff_prefix.2 (List.prefix_append m left))]

/-! ## Keywords -/

/-- What stands in front of a word that holds no gap is the gap. -/
theorem takeWhile_gap_append {gap w : List Char} (hgap : ∀ c ∈ gap, isGap c = true)
    (hne : w ≠ []) (hw : Gapless w) (rest : List Char) :
    (gap ++ (w ++ rest)).takeWhile isGap = gap
      ∧ (gap ++ (w ++ rest)).dropWhile isGap = w ++ rest := by
  obtain ⟨c, w, rfl⟩ := List.exists_cons_of_ne_nil hne
  have hstop : (c :: w ++ rest).head?.any isGap = false := hw c List.mem_cons_self
  have htake := takeWhile_append_of_stop hgap hstop
  refine ⟨htake, ?_⟩
  rw [← drop_length_takeWhile, htake, List.drop_left]

/-- **The further words of a phrase** are measured, each with the whole gap before it. -/
theorem measures_tail {ws : List (List Char)} (hws : ∀ w ∈ ws, w ≠ [] ∧ Gapless w) :
    Measures (Phrase.tailLength? ws) fun m _ => BehindGaps ws m := by
  refine ⟨Phrase.tailLength?_le, fun m left => ⟨fun h => ?_, fun h => ?_⟩⟩
  · induction ws generalizing m left with
    | nil =>
      obtain rfl := List.eq_nil_of_length_eq_zero (Option.some.inj h).symm
      exact .nil
    | cons w ws ih =>
      obtain ⟨-, hws⟩ := List.forall_mem_cons.1 hws
      obtain ⟨gap, rest, k, hne, hgap, heq, hk, hlen⟩ := exists_gap_of_tailLength? h
      have hle := Phrase.tailLength?_le hk
      -- the words behind the first one end where `m` does
      have htake : (rest.take k).length = k := List.length_take_of_le hle
      have hsplit : m ++ left = (gap ++ (w ++ rest.take k)) ++ rest.drop k := by
        rw [List.append_assoc, List.append_assoc, List.take_append_drop, heq]
      obtain ⟨rfl, rfl⟩ := List.append_inj hsplit (by
        rw [hlen, List.length_append, List.length_append, htake])
      refine .cons hne hgap (ih hws (rest.take k) (rest.drop k) ?_)
      rw [List.take_append_drop, htake]
      exact hk
  · induction h with
    | nil => rfl
    | @cons gap w text ws hne hgap _ ih =>
      obtain ⟨⟨hwne, hw⟩, hws⟩ := List.forall_mem_cons.1 hws
      have hpre : w.isPrefixOf (w ++ (text ++ left)) = true :=
        List.isPrefixOf_iff_prefix.2 (List.prefix_append _ _)
      obtain ⟨htake, hdrop⟩ := takeWhile_gap_append hgap hwne hw (text ++ left)
      rw [List.append_assoc, List.append_assoc, tailLength?_cons, htake, hdrop,
        if_pos ⟨hne, hpre⟩, List.drop_left, ih hws, Option.map_some, List.length_append,
        List.length_append, List.length_append, Nat.add_assoc]

/-- **A keyword is measured** if its words hold no gaps. -/
theorem measures_phrase {p : Phrase} (hp : p.Plain) : Measures p.matchLength? p.StandsAs := by
  obtain ⟨-, hmore⟩ := List.forall_mem_cons.1 (show ∀ w ∈ p.first :: p.more, _ from hp)
  have hwords : ∀ m left, p.wordsLength? (m ++ left) = some m.length
      ↔ ∃ text, m = p.first ++ text ∧ BehindGaps p.more text := by
    intro m left
    rw [Phrase.wordsLength?]
    constructor
    · intro h
      split at h
      · next hpre =>
        obtain ⟨k, hk, hlen⟩ := Option.map_eq_some_iff.1 h
        obtain ⟨rest, heq⟩ := List.isPrefixOf_iff_prefix.1 hpre
        rw [← heq, List.drop_left] at hk
        obtain ⟨text, rest, rfl, rfl, htext⟩ := (measures_tail hmore).exists_append hk
        rw [← List.append_assoc] at heq
        exact ⟨text, ((List.append_inj heq (by rw [List.length_append, hlen])).1).symm, htext⟩
      · cases h
    · rintro ⟨text, rfl, htext⟩
      have hpre : p.first.isPrefixOf (p.first ++ (text ++ left)) = true :=
        List.isPrefixOf_iff_prefix.2 (List.prefix_append _ _)
      rw [List.append_assoc, if_pos hpre, List.drop_left, ((measures_tail hmore).iff text left).2
        htext, Option.map_some, List.length_append]
  refine ⟨Phrase.matchLength?_le, fun m left => ?_⟩
  rw [Phrase.matchLength?, Option.filter_eq_some_iff, hwords, List.drop_left, Bool.not_eq_true',
    ← Bool.not_eq_true, Bool.and_eq_true]
  exact ⟨fun h => ⟨h.1, h.2⟩, fun h => ⟨h.words, h.boundary⟩⟩

/-! ## Bracketed texts -/

/-- **What is found is the first occurrence**, and it is found wherever there is one. -/
theorem indexOf?_eq_some_iff {marker text : List Char} {n : Nat} :
    indexOf? marker text = some n
      ↔ (∃ before after, text = before ++ (marker ++ after) ∧ before.length = n)
        ∧ ∀ before after, text = before ++ (marker ++ after) → n ≤ before.length := by
  constructor
  · intro h
    refine ⟨exists_append_of_indexOf? h, fun before after heq => ?_⟩
    obtain ⟨k, hk, hle⟩ := exists_indexOf?_le marker before after
    rw [heq, hk] at h
    exact Option.some.inj h ▸ hle
  · rintro ⟨⟨before, after, heq, rfl⟩, hfirst⟩
    obtain ⟨k, hk, hle⟩ := exists_indexOf?_le marker before after
    obtain ⟨before', after', heq', rfl⟩ := exists_append_of_indexOf? hk
    rw [heq, hk, Nat.le_antisymm hle (hfirst before' after' (heq.trans heq'))]

theorem measures_delimited (opener closer : List Char) :
    Measures (delimitedLength? opener closer) (Bracketed opener closer) := by
  refine ⟨delimitedLength?_le, fun m left => ⟨fun h => ?_, ?_⟩⟩
  · unfold delimitedLength? at h
    split at h
    · next hpre =>
      obtain ⟨tail, heq⟩ := List.isPrefixOf_iff_prefix.1 hpre
      rw [← heq, List.drop_left] at h
      dsimp only at h
      split at h
      · cases h
      · next hblank =>
        split at h
        · next k hk =>
          obtain ⟨⟨inner, after, rfl, hinner⟩, hfirst⟩ := indexOf?_eq_some_iff.1 hk
          have hne : inner ≠ [] := List.ne_nil_of_length_eq_add_one hinner
          have hsplit : m ++ left = (opener ++ (inner ++ closer)) ++ after := by
            rw [List.append_assoc, List.append_assoc, heq]
          obtain ⟨rfl, rfl⟩ := List.append_inj hsplit (by
            rw [List.length_append, List.length_append, hinner, ← Nat.add_assoc]
            exact (Option.some.inj h).symm)
          rw [List.head?_append_of_ne_nil _ hne] at hblank
          refine ⟨inner, rfl, hne, eq_false_of_ne_true hblank, fun before after heq => ?_⟩
          rw [hinner]
          exact hfirst before after heq
        · cases h
    · cases h
  · rintro ⟨inner, rfl, hne, hblank, hfirst⟩
    have hpre : opener.isPrefixOf (opener ++ (inner ++ (closer ++ left))) = true :=
      List.isPrefixOf_iff_prefix.2 (List.prefix_append _ _)
    have hindex : indexOf? closer (inner ++ (closer ++ left)) = some inner.length :=
      indexOf?_eq_some_iff.2 ⟨⟨inner, left, rfl, rfl⟩, hfirst⟩
    obtain ⟨k, hk⟩ := Nat.exists_eq_add_one_of_ne_zero (mt List.length_eq_zero_iff.1 hne)
    rw [List.append_assoc, List.append_assoc, delimitedLength?, if_pos hpre, List.drop_left]
    dsimp only
    rw [List.head?_append_of_ne_nil _ hne, hblank, if_neg Bool.false_ne_true, hindex, hk]
    refine congrArg some ?_
    rw [List.length_append, List.length_append, hk, Nat.add_assoc]

/-! ## Numbers -/

theorem digitCount_of_leadingDigits {digits rest : List Char} (h : LeadingDigits digits rest) :
    digitCount (digits ++ rest) = digits.length :=
  congrArg List.length (takeWhile_append_of_stop h.digit h.stop)

/-- Every text starts with its leading digits, if only with none. -/
theorem exists_leadingDigits (text : List Char) :
    ∃ digits rest, text = digits ++ rest ∧ LeadingDigits digits rest := by
  obtain ⟨digits, rest, heq, hdigits, hrest⟩ := exists_run Char.isDigit text
  exact ⟨digits, rest, heq, hdigits, hrest⟩

/-- **What stands behind the digits** is a point with further digits, or no point that a digit
follows. -/
theorem fraction_cases (rest : List Char) :
    (∃ places left, rest = '.' :: (places ++ left) ∧ places ≠ [] ∧ LeadingDigits places left
        ∧ fractionLength rest = places.length + 1)
      ∨ fractionLength rest = 0 ∧ ∀ c more, rest = '.' :: c :: more → c.isDigit = false := by
  by_cases hpoint : rest.head? = some '.'
  · obtain ⟨rest, rfl⟩ := List.head?_eq_some_iff.1 hpoint
    obtain ⟨places, left, rfl, hplaces⟩ := exists_leadingDigits rest
    have hcount := digitCount_of_leadingDigits hplaces
    rw [fractionLength_cons, if_pos rfl, hcount]
    by_cases hne : places = []
    · subst hne
      refine Or.inr ⟨rfl, fun c more heq => ?_⟩
      have hstop := hplaces.stop
      rw [show left = c :: more from (List.cons.inj heq).2] at hstop
      exact hstop
    · rw [if_neg (mt List.length_eq_zero_iff.1 hne)]
      exact Or.inl ⟨places, left, rfl, hne, hplaces, rfl⟩
  · refine Or.inr ⟨fractionLength.eq_2 _ fun more heq => hpoint (by rw [heq]; rfl), ?_⟩
    rintro c more rfl
    exact absurd rfl hpoint

/-- A number is its leading digits and the fraction behind them. -/
theorem numberLength?_of_leadingDigits {digits rest : List Char}
    (h : LeadingDigits digits rest) :
    numberLength? (digits ++ rest) = if digits = [] then none
      else if (rest.drop (fractionLength rest)).head?.any isWord = true then none
      else some (digits.length + fractionLength rest) := by
  simp only [numberLength?, digitCount_of_leadingDigits h, List.drop_left,
    List.drop_length_add_append, List.length_eq_zero_iff]

theorem measures_number : Measures numberLength? IsNumber := by
  refine ⟨numberLength?_le, fun m left => ⟨fun h => ?_, fun h => ?_⟩⟩
  · obtain ⟨digits, rest, heq, hdigits⟩ := exists_leadingDigits (m ++ left)
    rw [heq, numberLength?_of_leadingDigits hdigits] at h
    split at h
    · cases h
    · next hne =>
      split at h
      · cases h
      · next hend =>
        have hend := eq_false_of_ne_true hend
        have hlen := Option.some.inj h
        rcases fraction_cases rest with ⟨places, after, rfl, hplaces, hafter, hfraction⟩
          | ⟨hfraction, hpoint⟩
        · rw [hfraction] at hlen hend
          have hsplit : m ++ left = (digits ++ '.' :: places) ++ after := by
            rw [heq, List.append_assoc, List.cons_append]
          obtain ⟨rfl, rfl⟩ := List.append_inj hsplit (by
            rw [← hlen, List.length_append, List.length_cons])
          rw [List.drop_succ_cons, List.drop_left] at hend
          exact .fraction hne hdigits hplaces hafter hend
        · rw [hfraction] at hlen hend
          obtain ⟨rfl, rfl⟩ := List.append_inj heq hlen.symm
          exact .whole hne hdigits hpoint hend
  · cases h with
    | whole hne hdigits hpoint hend =>
      have hfraction : fractionLength left = 0 := by
        rcases fraction_cases left with ⟨places, after, rfl, hplaces, hafter, -⟩ | ⟨h, -⟩
        · obtain ⟨c, places, rfl⟩ := List.exists_cons_of_ne_nil hplaces
          exact Bool.noConfusion ((hpoint c _ rfl).symm.trans
            (hafter.digit c List.mem_cons_self))
        · exact h
      rw [numberLength?_of_leadingDigits hdigits, if_neg hne, hfraction, List.drop_zero, hend,
        if_neg Bool.false_ne_true, Nat.add_zero]
    | @fraction digits places _ hne hdigits hplaces hleft hend =>
      have hfraction : fractionLength ('.' :: (places ++ left)) = places.length + 1 := by
        rw [fractionLength_cons, if_pos rfl, digitCount_of_leadingDigits hleft,
          if_neg (mt List.length_eq_zero_iff.1 hplaces)]
      rw [List.append_assoc, List.cons_append, numberLength?_of_leadingDigits hdigits, if_neg hne,
        hfraction, List.drop_succ_cons, List.drop_left, hend, if_neg Bool.false_ne_true,
        List.length_append, List.length_cons]

/-! ## Colors -/

theorem measures_color :
    Measures colorLength? fun m left => m = ['#'] ∧ left.head?.any Char.isAlphanum = true := by
  refine ⟨fun {text n} h => matchLength?_le (show color.matchLength? text = some n from h),
    fun m left => ?_⟩
  cases m with
  | nil =>
    -- a color literal is not empty
    refine iff_of_false (fun h => ?_) fun h => List.cons_ne_nil _ _ h.1.symm
    cases left with
    | nil => cases h
    | cons a left =>
      rw [List.nil_append, colorLength?_cons] at h
      split at h <;> cases h
  | cons a m =>
    rw [List.cons_append, colorLength?_cons]
    constructor
    · intro h
      split at h
      · next hcolor =>
        obtain rfl := List.eq_nil_of_length_eq_zero (Nat.succ.inj (Option.some.inj h)).symm
        exact ⟨congrArg (· :: []) hcolor.1, hcolor.2⟩
      · cases h
    · rintro ⟨heq, hnext⟩
      obtain ⟨rfl, rfl⟩ := List.cons.inj heq
      exact if_pos ⟨rfl, hnext⟩

/-! ## All patterns -/

/-- **Every pattern is measured**, provided that the words of its keywords hold no gaps. -/
theorem measures {p : Pattern} (hp : ∀ ph ∈ p.phrases, ph.Plain) :
    Measures p.matchLength? p.Means := by
  cases p with
  | literal text => exact measures_literal text
  | keywords phrases => exact measures_longest fun ph hph => measures_phrase (hp ph hph)
  | glyphs texts =>
    refine (measures_longest fun g _ => measures_literal g).congr fun m left => ?_
    simp only [Means, exists_eq_right']
  | delimited opener closer => exact measures_delimited opener closer
  | number => exact measures_number
  | color => exact measures_color

/-- **A pattern matches exactly what it means.** A length is reported just if it is that of a
first part of the text that the pattern means there, be it counted in bytes or in characters,
and none is reported just if there is no such part. -/
theorem match_iff_means {p : Pattern} (hp : ∀ ph ∈ p.phrases, ph.Plain) (text : List Char) :
    (∀ n, p.matchBytes? text = some n
      ↔ ∃ m left, text = m ++ left ∧ (String.ofList m).utf8ByteSize = n ∧ p.Means m left)
    ∧ (∀ m left, text = m ++ left → (p.matchLength? text = some m.length ↔ p.Means m left))
    ∧ (p.matchBytes? text = none ↔ ∀ m left, text = m ++ left → ¬ p.Means m left) := by
  have hmeasures := measures hp
  refine ⟨fun n => ⟨fun h => ?_, ?_⟩, ?_, ?_⟩
  · rw [matchBytes?_eq] at h
    obtain ⟨k, hk, rfl⟩ := Option.map_eq_some_iff.1 h
    obtain ⟨m, left, rfl, rfl, hm⟩ := hmeasures.exists_append hk
    exact ⟨m, left, rfl, by simp, hm⟩
  · rintro ⟨m, left, rfl, rfl, hm⟩
    rw [matchBytes?_eq, (hmeasures.iff m left).2 hm]
    simp
  · rintro m left rfl
    exact hmeasures.iff m left
  · rw [matchBytes?_eq, Option.map_eq_none_iff]
    constructor
    · rintro h m left rfl hm
      rw [(hmeasures.iff m left).2 hm] at h
      cases h
    · refine fun h => Option.eq_none_iff_forall_ne_some.2 fun n hn => ?_
      obtain ⟨m, left, heq, -, hm⟩ := hmeasures.exists_append hn
      exact h m left heq hm

/-- The longer of two keywords would end inside a word, so the shorter one is meant: six
characters in seven bytes. -/
theorem match_iff_means_of_shorter_keyword :
    (∀ ph ∈ (keywords [.ofString "título de", .ofString "título"]).phrases, ph.Plain)
    ∧ (keywords [.ofString "título de", .ofString "título"]).matchBytes? "título de2".toList
      = some 7
    ∧ ∃ m left, "título de2".toList = m ++ left ∧ (String.ofList m).utf8ByteSize = 7
      ∧ (keywords [.ofString "título de", .ofString "título"]).Means m left := by
  have hplain : ∀ ph ∈ (keywords [.ofString "título de", .ofString "título"]).phrases,
      ph.Plain := by
    decide +kernel
  have hmatch : (keywords [.ofString "título de", .ofString "título"]).matchBytes?
      "título de2".toList = some 7 := by
    decide +kernel
  exact ⟨hplain, hmatch, ((match_iff_means hplain _).1 7).1 hmatch⟩

end Pattern

end UmlMarkup
