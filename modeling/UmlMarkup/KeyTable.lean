/-!
# Tables of keys

A registry finds a dialect by keys of several sorts. For each sort it has a
table that says at which place the dialect of a key is listed, if there is one. A
key leads to one place at a time: the last that it was claimed for. Releasing a
place frees all of its keys; it does not give them back to the places that they
had led to before.

A table is the partial function it stands for, so two tables are equal when they
answer alike.
-/

namespace UmlMarkup

/-- A key, with its letters lowered. -/
abbrev Key := List Char

/-- Lowers the ASCII letters of a text. Others stay as they are. -/
def lowered (text : String) : Key := text.toList.map Char.toLower

/-- The place that a key leads to. -/
@[ext] structure KeyTable where
  index? : Key → Option Nat

namespace KeyTable

/-- The table in which no key leads anywhere. -/
def empty : KeyTable := ⟨fun _ => none⟩

/-- Has a key lead to a place. -/
def claim (t : KeyTable) (i : Nat) (key : Key) : KeyTable :=
  ⟨fun k => if k = key then some i else t.index? k⟩

/-- Has several keys lead to a place. -/
def claimAll (t : KeyTable) (i : Nat) (keys : List Key) : KeyTable :=
  keys.foldl (fun t k => t.claim i k) t

/-- Frees all keys of a place. -/
def release (t : KeyTable) (i : Nat) : KeyTable :=
  ⟨fun k => (t.index? k).filter (· ≠ i)⟩

/-- **No key leads beyond the first `n` places.** -/
def Within (t : KeyTable) (n : Nat) : Prop := ∀ k i, t.index? k = some i → i < n

@[simp] theorem index?_claim (t : KeyTable) (i : Nat) (key k : Key) :
    (t.claim i key).index? k = if k = key then some i else t.index? k := rfl

/-- Of several claimed keys each leads to the new place, and every other one where
it led before. -/
@[simp] theorem index?_claimAll (t : KeyTable) (i : Nat) (keys : List Key) (k : Key) :
    (t.claimAll i keys).index? k = if k ∈ keys then some i else t.index? k := by
  induction keys generalizing t with
  | nil => simp [claimAll]
  | cons key rest ih =>
    have h := ih (t.claim i key)
    simp only [claimAll, List.foldl_cons] at h ⊢
    rw [h]
    by_cases hk : k = key <;> by_cases hr : k ∈ rest <;> simp [hk, hr]

namespace Within

variable {t : KeyTable} {i m n : Nat}

theorem empty : KeyTable.empty.Within n := fun _ _ h => nomatch h

theorem mono (h : t.Within m) (hle : m ≤ n) : t.Within n := fun k i hk =>
  Nat.lt_of_lt_of_le (h k i hk) hle

theorem claim (h : t.Within n) (hi : i < n) (key : Key) : (t.claim i key).Within n := by
  intro k j hj
  rw [index?_claim] at hj
  split at hj
  · exact Option.some.inj hj ▸ hi
  · exact h k j hj

theorem claimAll (h : t.Within n) (hi : i < n) (keys : List Key) :
    (t.claimAll i keys).Within n := by
  intro k j hj
  rw [index?_claimAll] at hj
  split at hj
  · exact Option.some.inj hj ▸ hi
  · exact h k j hj

theorem release (h : t.Within n) (i : Nat) : (t.release i).Within n := fun k j hj =>
  h k j (Option.filter_eq_some_iff.1 hj).1

/-- Where no key leads to a place there is none to free. -/
@[simp] theorem filter_index? (h : t.Within n) (k : Key) :
    (t.index? k).filter (· ≠ n) = t.index? k := by
  cases hk : t.index? k with
  | none => rfl
  | some i => simp [Nat.ne_of_lt (h k i hk)]

end Within

end KeyTable

end UmlMarkup
