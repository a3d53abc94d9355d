import UmlMarkup.Text

/-!
# Searching a text for a marker

The scanner asks one question of the text ahead of it: where does this marker
first occur? `indexOf?` answers with the number of characters before the
occurrence, and `past?` with the number of characters up to and including it,
which is how far a comment or a string reaches. A construct whose closing
marker is empty never closes, so `past?` does not find the empty marker.
`byteIndexOf?` and `pastBytes?` answer in bytes.
-/

namespace UmlMarkup

/-- The number of characters before the first occurrence of `marker`. -/
def indexOf? (marker : List Char) : List Char → Option Nat
  | [] => if marker.isPrefixOf [] then some 0 else none
  | c :: rest =>
    if marker.isPrefixOf (c :: rest) then some 0 else (indexOf? marker rest).map (· + 1)

/-- The number of characters up to the end of the first occurrence of
`marker`, which must not be empty. -/
def past? (marker text : List Char) : Option Nat :=
  if marker.isEmpty then none else (indexOf? marker text).map (· + marker.length)

/-- An occurrence lies within the text. -/
theorem length_le_of_indexOf? {marker text : List Char} {n : Nat}
    (h : indexOf? marker text = some n) : n + marker.length ≤ text.length := by
  induction text generalizing n with
  | nil =>
    simp only [indexOf?] at h
    split at h
    · next hp => cases h; simp_all
    · cases h
  | cons c rest ih =>
    simp only [indexOf?] at h
    split at h
    · next hp =>
      cases h
      have h := List.isPrefixOf_iff_prefix.1 hp
      have := h.length_le
      omega
    · obtain ⟨k, hk, rfl⟩ := Option.map_eq_some_iff.1 h
      have := ih hk
      simp only [List.length_cons]
      omega

/-- What is found is an occurrence. -/
theorem exists_append_of_indexOf? {marker text : List Char} {n : Nat}
    (h : indexOf? marker text = some n) :
    ∃ before after, text = before ++ (marker ++ after) ∧ before.length = n := by
  induction text generalizing n with
  | nil =>
    rw [indexOf?] at h
    split at h
    · next hp =>
      cases h
      obtain ⟨after, hafter⟩ := List.isPrefixOf_iff_prefix.1 hp
      exact ⟨[], after, hafter.symm, rfl⟩
    · cases h
  | cons c rest ih =>
    rw [indexOf?] at h
    split at h
    · next hp =>
      cases h
      obtain ⟨after, hafter⟩ := List.isPrefixOf_iff_prefix.1 hp
      exact ⟨[], after, hafter.symm, rfl⟩
    · obtain ⟨k, hk, rfl⟩ := Option.map_eq_some_iff.1 h
      obtain ⟨before, after, rfl, rfl⟩ := ih hk
      exact ⟨c :: before, after, rfl, rfl⟩

/-- Every occurrence lets one be found, at its place or before. -/
theorem exists_indexOf?_le (marker before after : List Char) :
    ∃ n, indexOf? marker (before ++ (marker ++ after)) = some n ∧ n ≤ before.length := by
  induction before with
  | nil =>
    have hp : marker.isPrefixOf (marker ++ after) = true :=
      List.isPrefixOf_iff_prefix.2 (List.prefix_append marker after)
    refine ⟨0, ?_, Nat.le_refl 0⟩
    rw [List.nil_append]
    cases h : marker ++ after with
    | nil => rw [indexOf?, ← h, if_pos hp]
    | cons c rest => rw [indexOf?, ← h, if_pos hp]
  | cons c before ih =>
    obtain ⟨n, hn, hle⟩ := ih
    rw [List.cons_append, indexOf?]
    split
    · exact ⟨0, rfl, Nat.zero_le _⟩
    · exact ⟨n + 1, by rw [hn, Option.map_some], Nat.succ_le_succ hle⟩

/-- What stands in front of a text in which the marker cannot begin there is passed over. -/
theorem indexOf?_append {marker before text : List Char}
    (h : ∀ v, v <:+ before → v ≠ [] → ¬ marker <+: v ++ text) :
    indexOf? marker (before ++ text) = (indexOf? marker text).map (before.length + ·) := by
  induction before with
  | nil => simp
  | cons c before ih =>
    have hc : marker.isPrefixOf (c :: (before ++ text)) = false :=
      eq_false_of_ne_true fun hpre =>
        h (c :: before) (List.suffix_refl _) (List.cons_ne_nil c before)
          (List.isPrefixOf_iff_prefix.1 hpre)
    rw [List.cons_append, indexOf?, hc, if_neg Bool.false_ne_true,
      ih fun v hv => h v (hv.trans (List.suffix_cons c before)), Option.map_map]
    congr 1
    funext n
    simp only [Function.comp_apply, List.length_cons]
    omega

/-- The same for the end of the occurrence. -/
theorem past?_append {marker before text : List Char}
    (h : ∀ v, v <:+ before → v ≠ [] → ¬ marker <+: v ++ text) :
    past? marker (before ++ text) = (past? marker text).map (before.length + ·) := by
  rw [past?, past?, indexOf?_append h]
  split
  · rfl
  · rw [Option.map_map, Option.map_map]
    congr 1
    funext n
    exact Nat.add_assoc ..

/-- An occurrence stays the first one, whatever comes behind the text. -/
theorem indexOf?_append_right {marker text : List Char} {n : Nat}
    (h : indexOf? marker text = some n) (more : List Char) :
    indexOf? marker (text ++ more) = some n := by
  induction text generalizing n with
  | nil =>
    obtain ⟨before, after, heq, rfl⟩ := exists_append_of_indexOf? h
    obtain ⟨rfl, hmarker⟩ := List.append_eq_nil_iff.1 heq.symm
    obtain ⟨rfl, -⟩ := List.append_eq_nil_iff.1 hmarker
    cases more <;> rfl
  | cons c rest ih =>
    rw [indexOf?] at h
    rw [List.cons_append, indexOf?]
    split at h
    · next hp =>
      have hpre : marker <+: c :: (rest ++ more) :=
        (List.isPrefixOf_iff_prefix.1 hp).trans (List.prefix_append (c :: rest) more)
      rw [if_pos (List.isPrefixOf_iff_prefix.2 hpre)]
      exact h
    · next hp =>
      obtain ⟨k, hk, rfl⟩ := Option.map_eq_some_iff.1 h
      -- what comes behind is too far away for the marker to begin here
      have hlong : marker.length ≤ (c :: rest).length := by
        have := length_le_of_indexOf? hk
        simp only [List.length_cons]
        omega
      rw [if_neg, ih hk, Option.map_some]
      exact fun hpre => hp (List.isPrefixOf_iff_prefix.2 (List.prefix_of_prefix_length_le
        (List.isPrefixOf_iff_prefix.1 hpre) (List.prefix_append (c :: rest) more) hlong))

theorem past?_append_right {marker text : List Char} {n : Nat} (h : past? marker text = some n)
    (more : List Char) : past? marker (text ++ more) = some n := by
  unfold past? at h ⊢
  split at h
  · cases h
  · next hne =>
    obtain ⟨k, hk, rfl⟩ := Option.map_eq_some_iff.1 h
    rw [if_neg hne, indexOf?_append_right hk, Option.map_some]

/-- What comes behind the occurrence has no part in it. -/
theorem past?_take {marker text : List Char} {n : Nat} (h : past? marker text = some n) :
    past? marker (text.take n) = some n := by
  unfold past? at h ⊢
  split at h
  · cases h
  · next hne =>
    obtain ⟨k, hk, rfl⟩ := Option.map_eq_some_iff.1 h
    obtain ⟨before, after, rfl, rfl⟩ := exists_append_of_indexOf? hk
    obtain ⟨j, hj, -⟩ := exists_indexOf?_le marker before []
    rw [List.append_nil] at hj
    -- the occurrence found first in the shorter text is the first one in the longer
    have hfirst := indexOf?_append_right hj after
    rw [List.append_assoc, hk] at hfirst
    obtain rfl := Option.some.inj hfirst
    rw [if_neg hne, ← List.append_assoc, ← List.length_append, List.take_left, hj,
      Option.map_some, List.length_append]

/-- Nothing is found just in the texts without the marker. -/
theorem past?_eq_none_iff {marker text : List Char} (hne : marker ≠ []) :
    past? marker text = none ↔ ¬ marker <:+: text := by
  rw [past?, if_neg (by simpa using hne), Option.map_eq_none_iff]
  refine ⟨?_, fun h => Option.eq_none_iff_forall_ne_some.2 fun n hn => ?_⟩
  · rintro h ⟨before, after, rfl⟩
    obtain ⟨n, hn, -⟩ := exists_indexOf?_le marker before after
    rw [List.append_assoc, hn] at h
    cases h
  · obtain ⟨before, after, rfl, -⟩ := exists_append_of_indexOf? hn
    exact h ⟨before, after, List.append_assoc ..⟩

/-- All of the text is read just if the marker stands at its very end and nowhere
else. -/
theorem past?_eq_length_iff {marker text : List Char} (hne : marker ≠ []) :
    past? marker text = some text.length ↔
      marker <:+ text ∧ ∀ before after, text = before ++ (marker ++ after) → after = [] := by
  rw [past?, if_neg (by simpa using hne), Option.map_eq_some_iff]
  constructor
  · rintro ⟨n, hn, hlen⟩
    obtain ⟨before, after, rfl, rfl⟩ := exists_append_of_indexOf? hn
    simp only [List.length_append] at hlen
    have hafter : after = [] := List.length_eq_zero_iff.1 (by omega)
    rw [hafter, List.append_nil]
    refine ⟨List.suffix_append before marker, fun before' after' heq => ?_⟩
    -- an earlier occurrence would have been found first
    obtain ⟨k, hk, hle⟩ := exists_indexOf?_le marker before' after'
    rw [hafter, List.append_nil, heq, hk] at hn
    cases hn
    have hlen' := congrArg List.length heq
    simp only [List.length_append] at hlen'
    exact List.length_eq_zero_iff.1 (by omega)
  · rintro ⟨⟨before, rfl⟩, honly⟩
    obtain ⟨n, hn, -⟩ := exists_indexOf?_le marker before []
    rw [List.append_nil] at hn
    obtain ⟨before', after, heq, rfl⟩ := exists_append_of_indexOf? hn
    have hafter := honly before' after heq
    rw [hafter, List.append_nil] at heq
    exact ⟨_, hn, by rw [heq, List.length_append]⟩

/-- Reading past a marker takes at least one character and stays within the
text. -/
theorem past?_bounds {marker text : List Char} {n : Nat} (h : past? marker text = some n) :
    0 < n ∧ n ≤ text.length := by
  unfold past? at h
  split at h
  · cases h
  · next hm =>
    obtain ⟨k, hk, rfl⟩ := Option.map_eq_some_iff.1 h
    have := length_le_of_indexOf? hk
    have : 0 < marker.length := by
      cases marker with
      | nil => simp at hm
      | cons _ _ => simp
    omega

/-! ## In bytes -/

/-- The number of bytes before the first occurrence of `marker`. -/
def byteIndexOf? (marker : List Char) : List Char → Option Nat
  | [] => if marker.isPrefixOf [] then some 0 else none
  | c :: rest =>
    if marker.isPrefixOf (c :: rest) then some 0
    else (byteIndexOf? marker rest).map (c.utf8Size + ·)

/-- The number of bytes up to the end of the first occurrence of `marker`, which must not be
empty. -/
def pastBytes? (marker text : List Char) : Option Nat :=
  if marker.isEmpty then none else (byteIndexOf? marker text).map (· + byteLength marker)

@[simp] theorem byteIndexOf?_eq (marker text : List Char) :
    byteIndexOf? marker text = (indexOf? marker text).map (bytesTo text) := by
  induction text with
  | nil =>
    rw [byteIndexOf?, indexOf?]
    split <;> rfl
  | cons c rest ih =>
    rw [byteIndexOf?, indexOf?]
    split
    · rfl
    · rw [ih, Option.map_map, Option.map_map]
      rfl

@[simp] theorem pastBytes?_eq (marker text : List Char) :
    pastBytes? marker text = (past? marker text).map (bytesTo text) := by
  rw [pastBytes?, past?, byteIndexOf?_eq]
  split
  · rfl
  · cases hn : indexOf? marker text with
    | none => rfl
    | some n =>
      obtain ⟨before, after, rfl, rfl⟩ := exists_append_of_indexOf? hn
      simp

end UmlMarkup
