import Mathlib.Data.List.Basic
import Mathlib.Data.List.Induction
import Mathlib.Data.List.Nodup
import UmlMarkup.Registry

/-!
# The registry is its history

What a registry answers is settled by the sequence of registrations that made
it. A name stands for the last dialect registered under it. A content identifier
or a suffix belongs to the last dialect that declares it, provided that no later
dialect has taken over that dialect's name: a registration frees the keys of the
one it replaces, and does not give them back to those who declared them before.
`holder?` says this of a history, without a word about tables.

One registration changes the holder of a key in one of two ways
(`holder?_concat`): the new dialect declares the key and holds it, or it does not,
and then its holder keeps it unless the new dialect has the holder's name. This is
what the key tables do too, except that they speak of places in the list where a
history speaks of names. Since each name has one place, and keeps it, the two agree
by induction along the history (`index?_ofList`).
The list of dialects follows the same course (`find?_dialects_ofList`,
`map_key_dialects_ofList`), and the lookup is read off the three.
-/

namespace UmlMarkup

/-! ## Histories

A history is the list of the dialects registered, the earliest first. -/

/-- The last dialect of a history with the given property. -/
def lastWhere (p : Dialect → Bool) (h : List Dialect) : Option Dialect := h.reverse.find? p

/-- The last dialect registered under a name. -/
def lastNamed (h : List Dialect) (name : Key) : Option Dialect := lastWhere (·.key == name) h

/-- **The holder of a key**: the last dialect that declares it, unless its name was
taken over by a later one. -/
def holder? (h : List Dialect) (declares : Dialect → Bool) : Option Dialect :=
  (lastWhere declares h).filter fun d => lastNamed h d.key == some d

/-- The dialect that a key leads to by the history: the holder of the content
identifier, else the holder of the suffix, else the last dialect of that name. -/
def answer? (h : List Dialect) (key : String) : Option Dialect :=
  ((holder? h (·.contentKey == lowered key)).or
    (holder? h (·.suffixKeys.contains (suffixKey key)))).or (lastNamed h (lowered key))

@[simp] theorem lastWhere_concat (p : Dialect → Bool) (h : List Dialect) (d : Dialect) :
    lastWhere p (h ++ [d]) = if p d then some d else lastWhere p h := by
  rw [lastWhere, List.reverse_concat, List.find?_cons]
  cases p d <;> rfl

@[simp] theorem lastNamed_concat (h : List Dialect) (d : Dialect) (name : Key) :
    lastNamed (h ++ [d]) name = if d.key = name then some d else lastNamed h name := by
  rw [lastNamed, lastWhere_concat]
  simp only [beq_iff_eq]
  rfl

theorem prop_of_lastWhere {p : Dialect → Bool} {h : List Dialect} {d : Dialect}
    (hd : lastWhere p h = some d) : p d = true :=
  List.find?_some hd

/-- **One registration and the holder of a key.** -/
@[simp] theorem holder?_concat (h : List Dialect) (d : Dialect) (declares : Dialect → Bool) :
    holder? (h ++ [d]) declares
      = if declares d then some d else (holder? h declares).filter (·.key ≠ d.key) := by
  rw [holder?, lastWhere_concat]
  by_cases hd : declares d = true
  · rw [if_pos hd, if_pos hd, Option.filter_some, lastNamed_concat, if_pos rfl, if_pos]
    exact beq_self_eq_true _
  · rw [if_neg hd, if_neg hd, holder?]
    cases he : lastWhere declares h with
    | none => rfl
    | some e =>
      rw [Option.filter_filter, Option.filter_some, Option.filter_some, lastNamed_concat]
      by_cases hkey : d.key = e.key
      · -- the name of the holder is taken, and not by the holder itself
        have hne : d ≠ e := fun heq => hd (heq ▸ prop_of_lastWhere he)
        simp [hkey, hne]
      · simp [hkey, Ne.symm hkey]

/-- A holder is the last dialect of its name. -/
theorem lastNamed_of_holder? {h : List Dialect} {declares : Dialect → Bool} {d : Dialect}
    (hd : holder? h declares = some d) : lastNamed h d.key = some d :=
  eq_of_beq (Option.filter_eq_some_iff.1 hd).2

theorem declares_of_holder? {h : List Dialect} {declares : Dialect → Bool} {d : Dialect}
    (hd : holder? h declares = some d) : declares d = true :=
  prop_of_lastWhere (Option.filter_eq_some_iff.1 hd).1

namespace Registry

@[simp] theorem ofList_concat (h : List Dialect) (d : Dialect) :
    ofList (h ++ [d]) = (ofList h).register d :=
  List.foldl_append

/-! ## One registration -/

/-- The place at which a dialect is listed once it is registered. -/
def position (r : Registry) (d : Dialect) : Nat :=
  (r.byName.index? d.key).getD r.dialects.length

theorem position_of_some {r : Registry} {d : Dialect} {i : Nat}
    (h : r.byName.index? d.key = some i) : r.position d = i := by
  rw [position, h, Option.getD_some]

theorem position_of_none {r : Registry} {d : Dialect} (h : r.byName.index? d.key = none) :
    r.position d = r.dialects.length := by
  rw [position, h, Option.getD_none]

section

variable (r : Registry) (d : Dialect)

/-- **The name leads to the place of the dialect**, and all other names where they led. -/
@[simp] theorem index?_byName_register (name : Key) :
    (r.register d).byName.index? name
      = if name = d.key then some (r.position d) else r.byName.index? name := by
  cases h : r.byName.index? d.key with
  | some i => rw [register_of_some r h, position_of_some h]; rfl
  | none => rw [register_of_none r h, position_of_none h]; rfl

/-- **The content identifier leads to the place of the dialect**, which is freed of all
others. -/
@[simp] theorem index?_contentIds_register (k : Key) :
    (r.register d).contentIds.index? k
      = if k = d.contentKey then some (r.position d)
        else (r.contentIds.index? k).filter (· ≠ r.position d) := by
  cases h : r.byName.index? d.key with
  | some i => rw [register_of_some r h, position_of_some h]; rfl
  | none =>
    rw [register_of_none r h, position_of_none h, r.contentIds_within.filter_index?]
    rfl

/-- **So do the suffixes.** -/
@[simp] theorem index?_suffixes_register (k : Key) :
    (r.register d).suffixes.index? k
      = if k ∈ d.suffixKeys then some (r.position d)
        else (r.suffixes.index? k).filter (· ≠ r.position d) := by
  cases h : r.byName.index? d.key with
  | some i =>
    rw [register_of_some r h, position_of_some h]
    exact KeyTable.index?_claimAll _ _ _ _
  | none =>
    rw [register_of_none r h, position_of_none h, r.suffixes_within.filter_index?]
    exact KeyTable.index?_claimAll _ _ _ _

@[simp] theorem position_register : (r.register d).position d = r.position d :=
  position_of_some ((index?_byName_register r d d.key).trans (if_pos rfl))

end

/-- A name other than that of the dialect leads to another place. -/
theorem ne_position {r : Registry} {d : Dialect} {name : Key} {i : Nat} (hne : name ≠ d.key)
    (hi : r.byName.index? name = some i) : i ≠ r.position d := by
  rintro rfl
  obtain ⟨e, he, hkey⟩ := exists_of_byName hi
  rw [position] at he hi
  cases hd : r.byName.index? d.key with
  | none =>
    rw [hd, Option.getD_none] at he
    exact absurd (List.getElem?_eq_some_iff.1 he).1 (Nat.lt_irrefl _)
  | some j =>
    obtain ⟨e', he', hkey'⟩ := exists_of_byName hd
    rw [hd, Option.getD_some, he'] at he
    cases he
    exact hne (hkey.symm.trans hkey')

/-- **Freeing a place is freeing a name**: what does not lead to the place of the new dialect is
what does not belong to a dialect of its name. -/
theorem filter_bind_byName (r : Registry) (d : Dialect) (holder : Option Dialect) :
    (holder.bind (r.byName.index? ·.key)).filter (· ≠ r.position d)
      = (holder.filter (·.key ≠ d.key)).bind ((r.register d).byName.index? ·.key) := by
  cases holder with
  | none => rfl
  | some e =>
    by_cases he : e.key = d.key
    · have hfree : (r.byName.index? d.key).filter (· ≠ r.position d) = none := by
        rw [position]
        cases r.byName.index? d.key <;> simp
      rw [Option.bind_some, he, hfree, Option.filter_some_neg (by simp [he])]
      rfl
    · rw [Option.bind_some, Option.filter_some_pos (by simp [he]), Option.bind_some,
        index?_byName_register, if_neg he]
      cases hi : r.byName.index? e.key with
      | none => rfl
      | some i => exact Option.filter_some_pos (decide_eq_true (ne_position he hi))

/-! ## The list of dialects -/

/-- Puts a dialect in the place of the one of its name, or at the end. -/
def place (d : Dialect) : List Dialect → List Dialect
  | [] => [d]
  | e :: rest => if e.key = d.key then d :: rest else e :: place d rest

theorem place_eq (d : Dialect) (ds : List Dialect) :
    place d ds = match ds.findIdx? (·.key == d.key) with
      | some i => ds.set i d
      | none => ds ++ [d] := by
  induction ds with
  | nil => rfl
  | cons e rest ih =>
    by_cases he : e.key = d.key
    · simp [place, he, List.findIdx?_cons]
    · rw [place, if_neg he, ih, List.findIdx?_cons, if_neg (by simpa using he)]
      cases rest.findIdx? (·.key == d.key) <;> rfl

/-- **A dialect is put in its place.** -/
@[simp] theorem dialects_register (r : Registry) (d : Dialect) :
    (r.register d).dialects = place d r.dialects := by
  rw [place_eq, ← r.byName_eq]
  cases h : r.byName.index? d.key with
  | some i => rw [register_of_some r h]; rfl
  | none => rw [register_of_none r h]; rfl

/-- A dialect that is put in its place is found under its name, and under every
other name what was found before. -/
@[simp] theorem find?_place (d : Dialect) (ds : List Dialect) (name : Key) :
    (place d ds).find? (·.key == name)
      = if d.key = name then some d else ds.find? (·.key == name) := by
  induction ds with
  | nil => by_cases h : d.key = name <;> simp [place, h]
  | cons e rest ih =>
    by_cases he : e.key = d.key
    · by_cases h : d.key = name <;> simp [place, he, h]
    · rw [place, if_neg he]
      by_cases h : e.key = name
      · have hd : d.key ≠ name := fun hd => he (h.trans hd.symm)
        simp [h, hd]
      · rw [List.find?_cons_of_neg (by simpa using h), ih,
          List.find?_cons_of_neg (by simpa using h)]

/-- Putting a dialect in its place keeps the names in order, and adds a new one at
the end. -/
theorem map_key_place (d : Dialect) (ds : List Dialect) :
    (place d ds).map Dialect.key
      = ds.map Dialect.key ++ if d.key ∈ ds.map Dialect.key then [] else [d.key] := by
  induction ds with
  | nil => simp [place]
  | cons e rest ih =>
    by_cases he : e.key = d.key
    · simp [place, he]
    · simp only [place, if_neg he, List.map_cons, ih, List.cons_append, List.mem_cons,
        Ne.symm he, false_or]

/-- **The dialect of a name is the last one registered under it.** -/
@[simp] theorem find?_dialects_ofList (h : List Dialect) (name : Key) :
    (ofList h).dialects.find? (·.key == name) = lastNamed h name := by
  induction h using List.reverseRecOn with
  | nil => rfl
  | append_singleton h d ih =>
    rw [ofList_concat, lastNamed_concat, ← ih, dialects_register]
    exact find?_place d _ name

/-- **The names stand in the order of first registration**, each of them once. -/
theorem map_key_dialects_ofList (h : List Dialect) :
    (ofList h).dialects.map Dialect.key = (h.map Dialect.key).eraseDups := by
  induction h using List.reverseRecOn with
  | nil => rfl
  | append_singleton h d ih =>
    have hmem : d.key ∈ (ofList h).dialects.map Dialect.key ↔ d.key ∈ h.map Dialect.key := by
      rw [ih, List.mem_eraseDups]
    rw [ofList_concat, dialects_register, map_key_place, ih, List.map_append,
      List.eraseDups_append, ← ih]
    simp only [hmem, List.map_singleton, List.cons_removeAll, List.nil_removeAll]
    by_cases hd : d.key ∈ h.map Dialect.key
    · simp [hd]
    · simp [hd, List.eraseDups_cons]

theorem nodup_map_key_ofList (h : List Dialect) :
    ((ofList h).dialects.map Dialect.key).Nodup := by
  induction h using List.reverseRecOn with
  | nil => exact List.nodup_nil
  | append_singleton h d ih =>
    rw [ofList_concat, dialects_register, map_key_place]
    by_cases hd : d.key ∈ (ofList h).dialects.map Dialect.key
    · rwa [if_pos hd, List.append_nil]
    · rw [if_neg hd, ← List.concat_eq_append]
      exact ih.concat hd

/-- Where no two dialects have the same name, each is found under its own. -/
theorem find?_key_of_mem {ds : List Dialect} (hnodup : (ds.map Dialect.key).Nodup)
    {d : Dialect} (hd : d ∈ ds) : ds.find? (·.key == d.key) = some d := by
  induction ds with
  | nil => cases hd
  | cons e rest ih =>
    obtain ⟨he, hrest⟩ := List.nodup_cons.1 hnodup
    rcases List.mem_cons.1 hd with rfl | hd
    · exact List.find?_cons_of_pos (beq_self_eq_true _)
    · have hne : e.key ≠ d.key := fun h => he (h ▸ List.mem_map_of_mem hd)
      rw [List.find?_cons_of_neg (by simpa using hne), ih hrest hd]

/-- **Each listed dialect is the last one registered under its name.** -/
theorem lastNamed_of_mem_dialects {h : List Dialect} {d : Dialect}
    (hd : d ∈ (ofList h).dialects) : lastNamed h d.key = some d := by
  rw [← find?_dialects_ofList]
  exact find?_key_of_mem (nodup_map_key_ofList h) hd

theorem dialects_ofList (h : List Dialect) :
    (ofList h).dialects = (h.map Dialect.key).eraseDups.filterMap (lastNamed h) := by
  rw [← map_key_dialects_ofList, List.filterMap_map]
  calc (ofList h).dialects
      = (ofList h).dialects.filterMap some := List.filterMap_some.symm
    _ = (ofList h).dialects.filterMap (lastNamed h ∘ Dialect.key) :=
        List.filterMap_congr fun d hd => (lastNamed_of_mem_dialects hd).symm

/-! ## The key tables -/

/-- At the place that a name leads to stands the last dialect registered under it. -/
@[simp] theorem bind_byName_ofList (h : List Dialect) (name : Key) :
    ((ofList h).byName.index? name).bind (fun i => (ofList h).dialects[i]?)
      = lastNamed h name := by
  simp [(ofList h).byName_eq, ← List.find?_eq_bind_findIdx?_getElem?]

/-- **A key leads to its holder** in any table that a registration changes as it changes the
holder: the new dialect gets the keys it declares, and its place is freed of all others. -/
theorem index?_ofList {table : Registry → KeyTable} {declares : Dialect → Bool} {k : Key}
    (hempty : (table empty).index? k = none)
    (hregister : ∀ r d, (table (r.register d)).index? k
      = if declares d then some (r.position d)
        else ((table r).index? k).filter (· ≠ r.position d)) (h : List Dialect) :
    (table (ofList h)).index? k
      = (holder? h declares).bind ((ofList h).byName.index? ·.key) := by
  induction h using List.reverseRecOn with
  | nil => exact hempty
  | append_singleton h d ih =>
    rw [ofList_concat, hregister, ih, holder?_concat]
    split
    · simp
    · exact filter_bind_byName _ _ _

theorem index?_contentIds_ofList (h : List Dialect) (k : Key) :
    (ofList h).contentIds.index? k
      = (holder? h (·.contentKey == k)).bind ((ofList h).byName.index? ·.key) :=
  index?_ofList rfl (fun r d => by simp [eq_comm (a := k)]) h

theorem index?_suffixes_ofList (h : List Dialect) (k : Key) :
    (ofList h).suffixes.index? k
      = (holder? h (·.suffixKeys.contains k)).bind ((ofList h).byName.index? ·.key) :=
  index?_ofList rfl (fun r d => by simp) h

/-- Where a holder is listed, it stands. -/
@[simp] theorem bind_holder?_ofList (h : List Dialect) (declares : Dialect → Bool) :
    ((holder? h declares).bind ((ofList h).byName.index? ·.key)).bind
        (fun i => (ofList h).dialects[i]?)
      = holder? h declares := by
  cases hd : holder? h declares with
  | none => rfl
  | some d => rw [Option.bind_some, bind_byName_ofList, lastNamed_of_holder? hd]

@[simp] theorem bind_contentIds_ofList (h : List Dialect) (k : Key) :
    ((ofList h).contentIds.index? k).bind (fun i => (ofList h).dialects[i]?)
      = holder? h (·.contentKey == k) := by
  simp [index?_contentIds_ofList]

@[simp] theorem bind_suffixes_ofList (h : List Dialect) (k : Key) :
    ((ofList h).suffixes.index? k).bind (fun i => (ofList h).dialects[i]?)
      = holder? h (·.suffixKeys.contains k) := by
  simp [index?_suffixes_ofList]

/-! ## Lookup -/

theorem lookup_eq_elim (r : Registry) (key : String) :
    r.lookup key
      = ((r.indexOf? key).bind fun i => r.dialects[i]?).elim (.error ⟨key⟩) .ok := by
  unfold lookup
  split
  · next i h =>
    have hplace : ((r.indexOf? key).bind fun i => r.dialects[i]?)
        = some (r.dialects.get ⟨i, indexOf?_lt h⟩) :=
      (congrArg (Option.bind · fun i => r.dialects[i]?) h).trans
        (List.getElem?_eq_getElem (indexOf?_lt h))
    rw [hplace, Option.elim_some]
  · next h => rw [h]; rfl

/-- Of two places that are asked in turn each is in range, so the dialects there may be asked
in turn as well. -/
theorem or_bind_getElem? {ds : List Dialect} {a b : Option Nat}
    (ha : ∀ i, a = some i → i < ds.length) :
    (a.or b).bind (fun i => ds[i]?)
      = (a.bind fun i => ds[i]?).or (b.bind fun i => ds[i]?) := by
  cases a with
  | none => rfl
  | some i =>
    rw [Option.some_or, Option.bind_some, List.getElem?_eq_getElem (ha i rfl), Option.some_or]

/-- **A key leads to the answer of the history.** -/
@[simp] theorem lookup_ofList (h : List Dialect) (key : String) :
    (ofList h).lookup key = (answer? h key).elim (.error ⟨key⟩) .ok := by
  have hanswer : ((ofList h).indexOf? key).bind (fun i => (ofList h).dialects[i]?)
      = answer? h key := by
    simp [indexOf?, or_bind_getElem? ((ofList h).contentIds_within _),
      or_bind_getElem? ((ofList h).suffixes_within _), answer?, Option.or_assoc]
  rw [lookup_eq_elim, hanswer]

/-- **No index is out of range, and no key is stale**: at the place that a key leads to stands a
dialect that declares it. -/
theorem exists_of_index? {h : List Dialect} {t : KeyTable} {declares : Dialect → Bool} {k : Key}
    {i : Nat} (hwithin : t.Within (ofList h).dialects.length)
    (hplace : (t.index? k).bind (fun i => (ofList h).dialects[i]?) = holder? h declares)
    (hi : t.index? k = some i) :
    ∃ d, (ofList h).dialects[i]? = some d ∧ declares d = true := by
  rw [hi, Option.bind_some, List.getElem?_eq_getElem (hwithin k i hi)] at hplace
  exact ⟨_, List.getElem?_eq_getElem _, declares_of_holder? hplace.symm⟩

theorem exists_of_contentIds_ofList {h : List Dialect} {k : Key} {i : Nat}
    (hi : (ofList h).contentIds.index? k = some i) :
    ∃ d, (ofList h).dialects[i]? = some d ∧ d.contentKey = k := by
  simpa using exists_of_index? (ofList h).contentIds_within (bind_contentIds_ofList h k) hi

theorem exists_of_suffixes_ofList {h : List Dialect} {k : Key} {i : Nat}
    (hi : (ofList h).suffixes.index? k = some i) :
    ∃ d, (ofList h).dialects[i]? = some d ∧ k ∈ d.suffixKeys := by
  simpa using exists_of_index? (ofList h).suffixes_within (bind_suffixes_ofList h k) hi

/-- **No stale key.** A dialect that a key leads to is the last one registered under its name,
and declares the key. -/
theorem declares_of_answer? {h : List Dialect} {key : String} {d : Dialect}
    (hd : answer? h key = some d) :
    lastNamed h d.key = some d
    ∧ (d.contentKey = lowered key ∨ suffixKey key ∈ d.suffixKeys ∨ d.key = lowered key) := by
  rcases Option.or_eq_some_iff.1 hd with hd | ⟨-, hd⟩
  · rcases Option.or_eq_some_iff.1 hd with hd | ⟨-, hd⟩
    · exact ⟨lastNamed_of_holder? hd, Or.inl (eq_of_beq (declares_of_holder? hd :))⟩
    · exact ⟨lastNamed_of_holder? hd,
        Or.inr (Or.inl (List.contains_iff_mem.1 (declares_of_holder? hd :)))⟩
  · have hkey : d.key = lowered key := eq_of_beq (prop_of_lastWhere hd :)
    exact ⟨hkey ▸ hd, Or.inr (Or.inr hkey)⟩

/-- **A dialect is listed just if it is the last one of its name.** -/
@[simp] theorem mem_dialects_iff {h : List Dialect} {d : Dialect} :
    d ∈ (ofList h).dialects ↔ lastNamed h d.key = some d := by
  refine ⟨lastNamed_of_mem_dialects, fun hd => ?_⟩
  rw [← find?_dialects_ofList] at hd
  exact List.mem_of_find?_eq_some hd

/-! ## Registering twice -/

@[simp] theorem place_place (d : Dialect) (ds : List Dialect) :
    place d (place d ds) = place d ds := by
  induction ds with
  | nil => simp [place]
  | cons e rest ih =>
    by_cases he : e.key = d.key
    · simp [place, he]
    · simp [place, he, ih]

/-- **Registering a dialect twice in a row is registering it once.** -/
@[simp] theorem register_register (r : Registry) (d : Dialect) :
    (r.register d).register d = r.register d := by
  ext1
  · simp
  · ext1
    funext name
    simp only [index?_byName_register, position_register]
    split <;> rfl
  · ext1
    funext k
    simp only [index?_contentIds_register, position_register]
    split <;> simp [Option.filter_filter]
  · ext1
    funext k
    simp only [index?_suffixes_register, position_register]
    split <;> simp [Option.filter_filter]

/-! ## The whole of it -/

/-- **The registry equals its history.** Whatever was registered, and in whatever
order:

* a key leads to the holder of the content identifier, else to the holder of the
  suffix, else to the last dialect of that name, and else the lookup fails with the
  key as it was asked;
* there is one dialect for each name ever registered, in the order of first
  registration, and it is the last one of that name;
* the place that a key leads to in a table is never out of range, and the dialect there
  declares the key; and a dialect that a key leads to is listed and declares the key;
* a registration made twice in a row counts once. -/
theorem ofList_eq_history (h : List Dialect) :
    (∀ key, (ofList h).lookup key = (answer? h key).elim (.error ⟨key⟩) .ok)
    ∧ (ofList h).dialects = (h.map Dialect.key).eraseDups.filterMap (lastNamed h)
    ∧ (ofList h).dialects.map Dialect.key = (h.map Dialect.key).eraseDups
    ∧ ((ofList h).dialects.map Dialect.key).Nodup
    ∧ (ofList h).names
      = ((h.map Dialect.key).eraseDups.filterMap (lastNamed h)).map Dialect.name
    ∧ (ofList h).size = (h.map Dialect.key).eraseDups.length
    ∧ (∀ k i, (ofList h).contentIds.index? k = some i →
      ∃ d, (ofList h).dialects[i]? = some d ∧ d.contentKey = k)
    ∧ (∀ k i, (ofList h).suffixes.index? k = some i →
      ∃ d, (ofList h).dialects[i]? = some d ∧ k ∈ d.suffixKeys)
    ∧ (∀ k i, (ofList h).byName.index? k = some i →
      ∃ d, (ofList h).dialects[i]? = some d ∧ d.key = k)
    ∧ (∀ key d, (ofList h).lookup key = .ok d →
      d ∈ (ofList h).dialects ∧ lastNamed h d.key = some d
      ∧ (d.contentKey = lowered key ∨ suffixKey key ∈ d.suffixKeys ∨ d.key = lowered key))
    ∧ ∀ d later, ofList (h ++ d :: d :: later) = ofList (h ++ d :: later) := by
  refine ⟨lookup_ofList h, dialects_ofList h, map_key_dialects_ofList h, nodup_map_key_ofList h,
    congrArg (List.map Dialect.name) (dialects_ofList h), ?_,
    fun k i => exists_of_contentIds_ofList, fun k i => exists_of_suffixes_ofList,
    fun k i => exists_of_byName, fun key d hd => ?_, fun d later => ?_⟩
  · rw [← map_key_dialects_ofList, List.length_map]
    rfl
  · have hanswer : answer? h key = some d := by
      rw [lookup_ofList] at hd
      cases ha : answer? h key with
      | none => rw [ha] at hd; cases hd
      | some e => rw [ha] at hd; cases hd; rfl
    obtain ⟨hlast, hdeclares⟩ := declares_of_answer? hanswer
    exact ⟨mem_dialects_iff.2 hlast, hlast, hdeclares⟩
  · unfold ofList
    simp

/-- A dialect takes over a content identifier and is registered anew without it:
the identifier leads nowhere, while the suffixes of its first owner and the order of
the names are as they were. -/
theorem ofList_eq_history_of_freed_key :
    let h := [Dialect.sequence,
      { Dialect.classDiagram with contentId := "TEXT/X-PlantUML-Sequence" }, Dialect.object,
      Dialect.classDiagram]
    (ofList h).lookup "text/x-plantuml-sequence" = .error ⟨"text/x-plantuml-sequence"⟩
    ∧ (ofList h).lookup "..PSEQ" = .ok Dialect.sequence
    ∧ (ofList h).names = ["plantuml_sequence", "plantuml_class", "plantuml_object"]
    ∧ (ofList h).size = 3
    ∧ ofList (h ++ Dialect.object :: Dialect.object :: [])
      = ofList (h ++ Dialect.object :: []) := by
  intro h
  obtain ⟨hlookup, -, -, -, hnames, hsize, -, -, -, -, htwice⟩ := ofList_eq_history h
  refine ⟨(hlookup _).trans ?_, (hlookup _).trans ?_, hnames.trans ?_, hsize.trans ?_,
    htwice Dialect.object []⟩
  · rw [show answer? h "text/x-plantuml-sequence" = none by decide +kernel]
    rfl
  · rw [show answer? h "..PSEQ" = some Dialect.sequence by decide +kernel]
    rfl
  · decide +kernel
  · decide +kernel

end Registry

end UmlMarkup
