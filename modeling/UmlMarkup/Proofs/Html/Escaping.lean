import Mathlib.Data.List.Infix
import UmlMarkup.Html

/-!
# Text in a page

Text of a diagram enters a page with four of its characters replaced by entities, and a
reader of the page replaces them back. Nothing is lost on the way (`decode_escape`), and
what stands in the page is **harmless**: it holds no character that could start or end a
tag or an attribute, and no ampersand that is not the start of an entity
(`harmless_escape`).

Reading back is a pass over the page from left to right that replaces every entry of a
table where it stands. Such a pass is told what it does by two equations, one for an
entry and one for a character at which none begins, and it needs a table in which no
entry is the start of another (`Unambiguous`). Tags are deleted by a pass of the same
kind.
-/

namespace UmlMarkup

namespace Html

/-! ## Replacing the entries of a table -/

/-- Replaces the entries of a table wherever one stands, from left to right. What was put
in is not read again. -/
def substitute (table : List (List Char × List Char)) : List Char → List Char
  | [] => []
  | c :: rest =>
    match table.find? fun e => e.1.isPrefixOf (c :: rest) with
    | some e => e.2 ++ substitute table (rest.drop (e.1.length - 1))
    | none => c :: substitute table rest
termination_by text => text.length
decreasing_by
  · simp only [List.length_drop, List.length_cons]
    omega
  · exact Nat.lt_succ_self _

/-- No entry of the table is empty or the start of another. -/
def Unambiguous (table : List (List Char × List Char)) : Prop :=
  ∀ e ∈ table, e.1 ≠ [] ∧ ∀ e' ∈ table, e'.1 <+: e.1 → e' = e

instance : DecidablePred Unambiguous := fun table =>
  inferInstanceAs (Decidable (∀ e ∈ table, e.1 ≠ [] ∧ ∀ e' ∈ table, e'.1 <+: e.1 → e' = e))

variable {table : List (List Char × List Char)}

@[simp] theorem substitute_nil : substitute table [] = [] := by
  rw [substitute]

/-- An entry is replaced where it stands. -/
theorem substitute_entry (htable : Unambiguous table) {e : List Char × List Char}
    (he : e ∈ table) (rest : List Char) :
    substitute table (e.1 ++ rest) = e.2 ++ substitute table rest := by
  have hfound : table.find? (fun e' => e'.1.isPrefixOf (e.1 ++ rest)) = some e := by
    have hsome : (table.find? fun e' => e'.1.isPrefixOf (e.1 ++ rest)).isSome :=
      List.find?_isSome.2
        ⟨e, he, List.isPrefixOf_iff_prefix.2 (List.prefix_append e.1 rest)⟩
    obtain ⟨e', he'⟩ := Option.isSome_iff_exists.1 hsome
    -- of two entries that stand at one place one is the start of the other
    have hmem := List.mem_of_find?_eq_some he'
    have hpre : e'.1 <+: e.1 ++ rest := by simpa using List.find?_some he'
    rcases List.prefix_or_prefix_of_prefix hpre (List.prefix_append e.1 rest) with h | h
    · rw [he', (htable e he).2 e' hmem h]
    · rw [he', (htable e' hmem).2 e he h]
  obtain ⟨c, more, hcons⟩ := List.exists_cons_of_ne_nil (htable e he).1
  rw [hcons, List.cons_append] at hfound ⊢
  rw [substitute, hfound]
  dsimp only
  rw [hcons, List.length_cons, Nat.add_sub_cancel, List.drop_left]

/-- A character at which no entry begins stays. -/
theorem substitute_cons {c : Char} (h : ∀ e ∈ table, e.1.head? ≠ some c)
    (hne : ∀ e ∈ table, e.1 ≠ []) (rest : List Char) :
    substitute table (c :: rest) = c :: substitute table rest := by
  have hnone : table.find? (fun e => e.1.isPrefixOf (c :: rest)) = none := by
    refine List.find?_eq_none.2 fun e he hpre => ?_
    obtain ⟨b, more, hcons⟩ := List.exists_cons_of_ne_nil (hne e he)
    have hhead := h e he
    rw [hcons] at hpre hhead
    exact hhead (congrArg some (List.cons_prefix_cons.1 (List.isPrefixOf_iff_prefix.1 hpre)).1)
  rw [substitute, hnone]

/-- So does a text in which no entry begins. -/
theorem substitute_append (hne : ∀ e ∈ table, e.1 ≠ []) {u : List Char}
    (h : ∀ c ∈ u, ∀ e ∈ table, e.1.head? ≠ some c) (rest : List Char) :
    substitute table (u ++ rest) = u ++ substitute table rest := by
  induction u with
  | nil => rfl
  | cons c u ih =>
    obtain ⟨hc, hu⟩ := List.forall_mem_cons.1 h
    rw [List.cons_append, substitute_cons hc hne, ih hu, List.cons_append]

/-! ## Entities -/

/-- The entities, with the characters they stand for. -/
def entities : List (List Char × List Char) :=
  [("&amp;".toList, ['&']), ("&lt;".toList, ['<']), ("&gt;".toList, ['>']),
    ("&quot;".toList, ['"'])]

/-- Reads the entities of a text. -/
def decode (text : List Char) : List Char := substitute entities text

/-- An entity starts with its only ampersand, goes on with none of the characters that mean
something in a page, and stays on its line. -/
theorem entities_shape : ∀ e ∈ entities,
    e.1.head? = some '&' ∧ '&' ∉ e.1.tail ∧ ('<' ∉ e.1 ∧ '>' ∉ e.1 ∧ '"' ∉ e.1)
      ∧ '\n' ∉ e.1 := by
  decide +kernel

theorem unambiguous_entities : Unambiguous entities := by decide +kernel

/-- A character is written as its entity or as itself, and then it means nothing. -/
theorem escapeChar_cases (c : Char) :
    (escapeChar c, [c]) ∈ entities
      ∨ escapeChar c = [c] ∧ c ≠ '&' ∧ c ≠ '<' ∧ c ≠ '>' ∧ c ≠ '"' := by
  unfold escapeChar
  split
  · exact Or.inl (by decide)
  · exact Or.inl (by decide)
  · exact Or.inl (by decide)
  · exact Or.inl (by decide)
  · next hamp hlt hgt hquot => exact Or.inr ⟨rfl, hamp, hlt, hgt, hquot⟩

@[simp] theorem escape_append (u v : List Char) : escape (u ++ v) = escape u ++ escape v :=
  List.flatMap_append

@[simp] theorem escape_cons (c : Char) (u : List Char) :
    escape (c :: u) = escapeChar c ++ escape u :=
  rfl

@[simp] theorem decode_escape_append (u rest : List Char) :
    decode (escape u ++ rest) = u ++ decode rest := by
  induction u with
  | nil => rfl
  | cons c u ih =>
    rw [escape_cons, List.append_assoc, List.cons_append, ← ih]
    rcases escapeChar_cases c with h | ⟨h, hamp, -⟩
    · exact substitute_entry unambiguous_entities h _
    · rw [h]
      refine substitute_cons (fun e he hhead => ?_) (fun e he => (unambiguous_entities e he).1) _
      exact hamp (Option.some.inj (hhead.symm.trans (entities_shape e he).1))

/-- **Escaping loses nothing.** -/
@[simp] theorem decode_escape (text : List Char) : decode (escape text) = text := by
  have h := decode_escape_append text []
  rwa [List.append_nil, show decode [] = [] from substitute_nil, List.append_nil] at h

/-! ## Harmless text -/

/-- **A text that means nothing but itself in a page**: no character of it starts or ends a
tag or an attribute, and every ampersand starts an entity. -/
structure Harmless (text : List Char) : Prop where
  plain : ∀ c ∈ text, c ≠ '<' ∧ c ≠ '>' ∧ c ≠ '"'
  entity : ∀ before after, text = before ++ '&' :: after → ∃ e ∈ entities, e.1 <+: '&' :: after

theorem harmless_nil : Harmless [] where
  plain := List.forall_mem_nil _
  entity _ _ h := by simp at h

theorem Harmless.append {u v : List Char} (hu : Harmless u) (hv : Harmless v) :
    Harmless (u ++ v) where
  plain := List.forall_mem_append.2 ⟨hu.plain, hv.plain⟩
  entity before after h := by
    rcases List.append_eq_append_iff.1 h with ⟨w, -, hw⟩ | ⟨w, hw, hafter⟩
    · exact hv.entity w after hw
    · cases w with
      | nil => exact hv.entity [] after hafter.symm
      | cons c w =>
        obtain ⟨rfl, rfl⟩ := List.cons.inj hafter
        obtain ⟨e, he, hpre⟩ := hu.entity before w hw
        exact ⟨e, he, hpre.trans (List.prefix_append ('&' :: w) v)⟩

theorem harmless_entity {e : List Char × List Char} (he : e ∈ entities) : Harmless e.1 where
  plain c hc := by
    obtain ⟨-, -, ⟨hlt, hgt, hquot⟩, -⟩ := entities_shape e he
    exact ⟨fun h => hlt (h ▸ hc), fun h => hgt (h ▸ hc), fun h => hquot (h ▸ hc)⟩
  entity before after h := by
    obtain ⟨-, htail, -⟩ := entities_shape e he
    cases before with
    | nil => exact ⟨e, he, h ▸ List.prefix_refl _⟩
    | cons c before =>
      rw [h] at htail
      exact absurd (List.mem_append_right before List.mem_cons_self) htail

/-- **An escaped text is harmless.** -/
theorem harmless_escape (text : List Char) : Harmless (escape text) := by
  induction text with
  | nil => exact harmless_nil
  | cons c text ih =>
    refine Harmless.append ?_ ih
    rcases escapeChar_cases c with h | ⟨h, hamp, hplain⟩
    · exact harmless_entity h
    · rw [h]
      refine ⟨List.forall_mem_singleton.2 hplain, fun before after heq => ?_⟩
      have hmem : '&' ∈ [c] := heq ▸ List.mem_append_right before List.mem_cons_self
      exact absurd (List.mem_singleton.1 hmem).symm hamp

end Html

end UmlMarkup
