import UmlMarkup.Dialect.Builtin
import UmlMarkup.Event
import UmlMarkup.FileName
import UmlMarkup.KeyTable

/-!
# The registry of dialects

A registry holds dialects in the order in which their names were first
registered and finds them by content identifier, by file suffix or by name, in
this order of precedence. Letter case is immaterial in all three, as far as
ASCII goes, and so are the dots before a suffix.

Registering a dialect under a name that is taken replaces the dialect of that
name where it stands, and frees the content identifier and the suffixes it had.
Where two dialects declare the same key the later registration has it.

Keys lead to places in the list, and a place is read without asking whether the
list reaches that far. That it does is a part of what a registry is.
-/

namespace UmlMarkup

/-- The key of a file suffix: without the dots before it, and lowered. -/
def suffixKey (suffix : String) : Key := (suffix.toList.dropWhile (· == '.')).map Char.toLower

namespace Dialect

/-- The name of a dialect as a key. Dialects are told apart by it. -/
def key (d : Dialect) : Key := lowered d.name

/-- The content identifier of a dialect as a key. -/
def contentKey (d : Dialect) : Key := lowered d.contentId

/-- The suffixes of a dialect as keys. A suffix that is nothing but dots is
none. -/
def suffixKeys (d : Dialect) : List Key := (d.suffixes.map suffixKey).filter (· ≠ [])

end Dialect

/-- No dialect answers to a key. -/
structure LookupError where
  key : String
  deriving DecidableEq, Repr

/-- The text of a failed lookup. -/
def LookupError.message (e : LookupError) : String := s!"Unrecognized dialect: '{e.key}'"

/-- **The registered dialects and their keys.** A name leads to the place of its dialect, and no
content identifier or suffix leads beyond the list. -/
@[ext] structure Registry where
  /-- One dialect for each name, in order of first registration. -/
  dialects : List Dialect
  byName : KeyTable
  contentIds : KeyTable
  suffixes : KeyTable
  byName_eq : ∀ name, byName.index? name = dialects.findIdx? (·.key == name)
  contentIds_within : contentIds.Within dialects.length
  suffixes_within : suffixes.Within dialects.length

namespace Registry

/-- The registry without dialects. -/
def empty : Registry where
  dialects := []
  byName := .empty
  contentIds := .empty
  suffixes := .empty
  byName_eq := fun _ => rfl
  contentIds_within := .empty
  suffixes_within := .empty

/-- Whether a dialect of this name is registered. -/
def hasName (r : Registry) (d : Dialect) : Bool := (r.byName.index? d.key).isSome

/-- Where a dialect is found by its name, the dialect listed there has that name. -/
theorem exists_of_byName {r : Registry} {name : Key} {i : Nat}
    (h : r.byName.index? name = some i) : ∃ e, r.dialects[i]? = some e ∧ e.key = name := by
  rw [r.byName_eq, List.findIdx?_eq_some_iff_getElem] at h
  obtain ⟨hi, hkey, -⟩ := h
  exact ⟨_, List.getElem?_eq_getElem hi, eq_of_beq hkey⟩

theorem byName_within (r : Registry) : r.byName.Within r.dialects.length := fun _ _ h => by
  obtain ⟨e, he, -⟩ := exists_of_byName h
  exact (List.getElem?_eq_some_iff.1 he).1

/-- A dialect that takes the place of one of its name leaves the names as they stand. -/
theorem map_key_set {ds : List Dialect} {d e : Dialect} {i : Nat} (h : ds[i]? = some e)
    (hkey : e.key = d.key) : (ds.set i d).map Dialect.key = ds.map Dialect.key := by
  obtain ⟨hi, rfl⟩ := List.getElem?_eq_some_iff.1 h
  have hi' : i < (ds.map Dialect.key).length := List.length_map Dialect.key ▸ hi
  rw [List.map_set, ← hkey, ← List.getElem_map Dialect.key (h := hi'), List.set_getElem_self]

theorem byName_claim_set {r : Registry} {d : Dialect} {i : Nat}
    (h : r.byName.index? d.key = some i) (name : Key) :
    (r.byName.claim i d.key).index? name = (r.dialects.set i d).findIdx? (·.key == name) := by
  have hkeys : ∀ ds : List Dialect,
      ds.findIdx? (·.key == name) = (ds.map Dialect.key).findIdx? (· == name) :=
    fun ds => by rw [List.findIdx?_map]; rfl
  obtain ⟨e, he, hkey⟩ := exists_of_byName h
  rw [hkeys, map_key_set he hkey, ← hkeys, ← r.byName_eq, KeyTable.index?_claim]
  split
  · next hname => rw [hname, h]
  · rfl

/-- A dialect with a new name is found where it is put. -/
theorem byName_claim_append {r : Registry} {d : Dialect} (h : r.byName.index? d.key = none)
    (name : Key) :
    (r.byName.claim r.dialects.length d.key).index? name
      = (r.dialects ++ [d]).findIdx? (·.key == name) := by
  rw [List.findIdx?_append, ← r.byName_eq, KeyTable.index?_claim]
  by_cases hname : name = d.key
  · simp [hname, h]
  · simp [hname, Ne.symm hname]

section

variable (r : Registry) {d : Dialect} {i : Nat}

/-- Puts a dialect in the place of the one of its name, whose keys are freed. -/
def replace (h : r.byName.index? d.key = some i) : Registry :=
  have hi : i < (r.dialects.set i d).length :=
    Nat.lt_of_lt_of_eq (r.byName_within _ _ h) List.length_set.symm
  have hle : r.dialects.length ≤ (r.dialects.set i d).length := Nat.le_of_eq List.length_set.symm
  { dialects := r.dialects.set i d
    byName := r.byName.claim i d.key
    contentIds := (r.contentIds.release i).claim i d.contentKey
    suffixes := (r.suffixes.release i).claimAll i d.suffixKeys
    byName_eq := byName_claim_set h
    contentIds_within := ((r.contentIds_within.mono hle).release i).claim hi _
    suffixes_within := ((r.suffixes_within.mono hle).release i).claimAll hi _ }

/-- Puts a dialect with a new name at the end. -/
def append (h : r.byName.index? d.key = none) : Registry :=
  have hi : r.dialects.length < (r.dialects ++ [d]).length := by simp
  { dialects := r.dialects ++ [d]
    byName := r.byName.claim r.dialects.length d.key
    contentIds := r.contentIds.claim r.dialects.length d.contentKey
    suffixes := r.suffixes.claimAll r.dialects.length d.suffixKeys
    byName_eq := byName_claim_append h
    contentIds_within := (r.contentIds_within.mono (Nat.le_of_lt hi)).claim hi _
    suffixes_within := (r.suffixes_within.mono (Nat.le_of_lt hi)).claimAll hi _ }

/-- Registers a dialect. -/
def register (d : Dialect) : Registry :=
  match h : r.byName.index? d.key with
  | some _ => r.replace h
  | none => r.append h

theorem register_of_some (h : r.byName.index? d.key = some i) : r.register d = r.replace h := by
  unfold register
  split
  · next j hj =>
    obtain rfl := Option.some.inj (h.symm.trans hj)
    rfl
  · next hnone => cases hnone.symm.trans h

theorem register_of_none (h : r.byName.index? d.key = none) : r.register d = r.append h := by
  unfold register
  split
  · next hsome => cases hsome.symm.trans h
  · rfl

end

/-- The event of registering a dialect. -/
def registerEvent (r : Registry) (d : Dialect) : Event :=
  if r.hasName d then .replaced d.name else .registered d.name d.label

/-- The registry of the dialects registered one after the other. -/
def ofList (ds : List Dialect) : Registry := ds.foldl register empty

/-- The registry of the built-in dialects. -/
def builtin : Registry := ofList Dialect.builtin

/-- The events of setting up the registry of the built-in dialects. -/
def builtinEvents : List Event := Dialect.builtin.map fun d => .registered d.name d.label

/-- The place that a key leads to: as a content identifier, else as a suffix, else as a
name. -/
def indexOf? (r : Registry) (key : String) : Option Nat :=
  (r.contentIds.index? (lowered key)).or
    ((r.suffixes.index? (suffixKey key)).or (r.byName.index? (lowered key)))

/-- **No index is out of range.** -/
theorem indexOf?_lt {r : Registry} {key : String} {i : Nat} (h : r.indexOf? key = some i) :
    i < r.dialects.length := by
  rcases Option.or_eq_some_iff.1 h with h | ⟨-, h⟩
  · exact r.contentIds_within _ i h
  · rcases Option.or_eq_some_iff.1 h with h | ⟨-, h⟩
    · exact r.suffixes_within _ i h
    · exact r.byName_within _ i h

/-- The dialect that a content identifier, a suffix or a name leads to. -/
def lookup (r : Registry) (key : String) : Except LookupError Dialect :=
  match h : r.indexOf? key with
  | some i => .ok (r.dialects.get ⟨i, indexOf?_lt h⟩)
  | none => .error ⟨key⟩

/-- The events of a lookup. -/
def lookupEvents (r : Registry) (key : String) : List Event :=
  match r.lookup key with
  | .ok _ => []
  | .error e => [.unknownKey e.key]

/-- The dialect that the extension of a path leads to. -/
def lookupPath (r : Registry) (path : String) : Except LookupError Dialect :=
  match extension? path.toList with
  | some ext => r.lookup (String.ofList ext)
  | none => .error ⟨path⟩

/-- The events of a lookup by path. There are none for a path without an
extension. -/
def lookupPathEvents (r : Registry) (path : String) : List Event :=
  match extension? path.toList with
  | some ext => r.lookupEvents (String.ofList ext)
  | none => []

/-- The names of the dialects, in order of first registration. -/
def names (r : Registry) : List String := r.dialects.map Dialect.name

/-- The number of dialects. -/
def size (r : Registry) : Nat := r.dialects.length

/-- Whether there are no dialects. -/
def isEmpty (r : Registry) : Bool := r.dialects.isEmpty

/-- The registration records of the dialects, in order of first registration. -/
def registrations (r : Registry) : List Registration := r.dialects.map Dialect.registration

end Registry

end UmlMarkup
