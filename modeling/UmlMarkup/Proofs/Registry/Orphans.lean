import UmlMarkup.Proofs.Registry.History

/-!
# Keys without an owner

A key may change hands. When a dialect declares a content identifier or a suffix that
another one has declared before, the key is its own from then on; when later a dialect
of the same name takes its place and does not declare the key, the key is freed. It is
not given back: the first dialect may still be listed, and declares the key as ever, but
the key leads nowhere.

So a key is found just if the *last* dialect to declare it is still listed, or if it is
the name of a listed dialect (`lookup_ok_iff`). What may go wrong for a listed dialect
is no more than this: somebody else has declared its key after it and is not listed any
more (`key_found_iff_last_declarer_listed`). The name of a listed dialect always leads to
a listed dialect, and a single registration takes away only what led to the dialect that
it replaces (`answer?_concat`).
-/

namespace UmlMarkup

/-- The dialect declares the key, as its content identifier or as a suffix. -/
def Dialect.Declares (d : Dialect) (key : String) : Prop :=
  d.contentKey = lowered key ∨ suffixKey key ∈ d.suffixKeys

instance (d : Dialect) : DecidablePred d.Declares := fun _ =>
  inferInstanceAs (Decidable (_ ∨ _))

/-- **The last to declare a key**, as a content identifier or as a suffix. -/
def LastToDeclare (h : List Dialect) (key : String) (d : Dialect) : Prop :=
  lastWhere (·.contentKey == lowered key) h = some d
    ∨ lastWhere (·.suffixKeys.contains (suffixKey key)) h = some d

theorem mem_of_lastWhere {p : Dialect → Bool} {h : List Dialect} {d : Dialect}
    (hd : lastWhere p h = some d) : d ∈ h :=
  List.mem_reverse.1 (List.mem_of_find?_eq_some hd)

/-- Where one dialect has a property there is a last one. -/
theorem exists_lastWhere {p : Dialect → Bool} {h : List Dialect} {d : Dialect} (hd : d ∈ h)
    (hp : p d = true) : ∃ e, lastWhere p h = some e :=
  Option.isSome_iff_exists.1 (List.find?_isSome.2 ⟨d, List.mem_reverse.2 hd, hp⟩)

/-- If the last dialect with one property has another one, and the last with that one has
the first, the two are the same. -/
theorem eq_of_lastWhere {p q : Dialect → Bool} {h : List Dialect} {d e : Dialect}
    (he : lastWhere p h = some e) (hd : lastWhere q h = some d) (hp : p d = true)
    (hq : q e = true) : e = d := by
  induction h using List.reverseRecOn with
  | nil => cases he
  | append_singleton h f ih =>
    rw [lastWhere_concat] at he hd
    by_cases hpf : p f = true
    · rw [if_pos hpf] at he
      cases he
      rw [if_pos hq] at hd
      exact Option.some.inj hd
    · by_cases hqf : q f = true
      · rw [if_pos hqf] at hd
        cases hd
        exact absurd hp hpf
      · rw [if_neg hpf] at he
        rw [if_neg hqf] at hd
        exact ih he hd

/-- The last to declare a key has declared it. -/
theorem LastToDeclare.declares {h : List Dialect} {key : String} {d : Dialect}
    (hd : LastToDeclare h key d) : d.Declares key := by
  rcases hd with hd | hd
  · exact Or.inl (eq_of_beq (prop_of_lastWhere hd :))
  · exact Or.inr (List.contains_iff_mem.1 (prop_of_lastWhere hd :))

theorem LastToDeclare.mem {h : List Dialect} {key : String} {d : Dialect}
    (hd : LastToDeclare h key d) : d ∈ h :=
  hd.elim mem_of_lastWhere mem_of_lastWhere

namespace Registry

/-! ## What is listed and what is found -/

theorem mem_of_mem_dialects {h : List Dialect} {d : Dialect}
    (hd : d ∈ (ofList h).dialects) : d ∈ h :=
  mem_of_lastWhere (mem_dialects_iff.1 hd)

/-- The holder of a key is the last to declare it, if that one is listed. -/
theorem holder?_eq_some_iff {h : List Dialect} {declares : Dialect → Bool} {d : Dialect} :
    holder? h declares = some d ↔ lastWhere declares h = some d ∧ d ∈ (ofList h).dialects := by
  simp [holder?]

/-- A key that a listed dialect declares was declared by somebody last, and if by one of
the same name, then by that dialect itself. -/
theorem exists_lastToDeclare {h : List Dialect} {d : Dialect} (hd : d ∈ (ofList h).dialects)
    {key : String} (hkey : d.Declares key) :
    ∃ e, LastToDeclare h key e ∧ (e.key = d.key → e = d) := by
  have hmem := mem_of_mem_dialects hd
  have hlast := mem_dialects_iff.1 hd
  rcases hkey with hkey | hkey
  · have hp : (d.contentKey == lowered key) = true := beq_iff_eq.2 hkey
    obtain ⟨e, he⟩ := exists_lastWhere (p := (·.contentKey == lowered key)) hmem hp
    exact ⟨e, Or.inl he, fun hname => eq_of_lastWhere he hlast hp (beq_iff_eq.2 hname)⟩
  · have hp : d.suffixKeys.contains (suffixKey key) = true := List.contains_iff_mem.2 hkey
    obtain ⟨e, he⟩ := exists_lastWhere (p := (·.suffixKeys.contains (suffixKey key))) hmem hp
    exact ⟨e, Or.inr he, fun hname => eq_of_lastWhere he hlast hp (beq_iff_eq.2 hname)⟩

/-- What a key leads to is listed. -/
theorem mem_of_lookup {h : List Dialect} {key : String} {d : Dialect}
    (hd : (ofList h).lookup key = .ok d) : d ∈ (ofList h).dialects := by
  rw [lookup_ofList] at hd
  cases ha : answer? h key with
  | none => rw [ha] at hd; cases hd
  | some e =>
    rw [ha] at hd
    cases hd
    exact mem_dialects_iff.2 (declares_of_answer? ha).1

theorem answer?_isSome_iff {h : List Dialect} {key : String} :
    (answer? h key).isSome
      ↔ ∃ d ∈ (ofList h).dialects, LastToDeclare h key d ∨ d.key = lowered key := by
  have hholder : ∀ declares, (holder? h declares).isSome
      ↔ ∃ d ∈ (ofList h).dialects, lastWhere declares h = some d := fun declares => by
    rw [Option.isSome_iff_exists]
    exact exists_congr fun d => holder?_eq_some_iff.trans and_comm
  have hname : (lastNamed h (lowered key)).isSome
      ↔ ∃ d ∈ (ofList h).dialects, d.key = lowered key := by
    rw [Option.isSome_iff_exists]
    constructor
    · rintro ⟨d, hd⟩
      have hkey : d.key = lowered key := eq_of_beq (prop_of_lastWhere hd :)
      exact ⟨d, mem_dialects_iff.2 (hkey ▸ hd), hkey⟩
    · rintro ⟨d, hd, hkey⟩
      exact ⟨d, hkey ▸ mem_dialects_iff.1 hd⟩
  rw [answer?, Option.isSome_or, Option.isSome_or, Bool.or_eq_true, Bool.or_eq_true, hholder,
    hholder, hname, ← exists_or, ← exists_or]
  refine exists_congr fun d => ?_
  rw [← and_or_left, ← and_or_left, LastToDeclare]

/-- **A key is found just if the last to declare it is still listed**, or if it is the
name of a listed dialect. -/
theorem lookup_ok_iff {h : List Dialect} {key : String} :
    (∃ e ∈ (ofList h).dialects, (ofList h).lookup key = .ok e)
      ↔ ∃ e ∈ (ofList h).dialects, LastToDeclare h key e ∨ e.key = lowered key := by
  rw [← answer?_isSome_iff, Option.isSome_iff_exists]
  constructor
  · rintro ⟨e, -, he⟩
    rw [lookup_ofList] at he
    cases ha : answer? h key with
    | none => rw [ha] at he; cases he
    | some e => exact ⟨e, rfl⟩
  · rintro ⟨e, he⟩
    have hlookup : (ofList h).lookup key = .ok e := by rw [lookup_ofList, he]; rfl
    exact ⟨e, mem_of_lookup hlookup, hlookup⟩

/-- A lookup fails with the key as it was asked, or finds a listed dialect. -/
theorem lookup_error_iff {h : List Dialect} {key : String} :
    (ofList h).lookup key = .error ⟨key⟩
      ↔ ¬ ∃ e ∈ (ofList h).dialects, (ofList h).lookup key = .ok e := by
  constructor
  · rintro herror ⟨e, -, he⟩
    rw [herror] at he
    cases he
  · intro hnone
    rw [lookup_ofList]
    cases ha : answer? h key with
    | none => rfl
    | some e =>
      have hlookup : (ofList h).lookup key = .ok e := by rw [lookup_ofList, ha]; rfl
      exact absurd ⟨e, mem_of_lookup hlookup, hlookup⟩ hnone

/-! ## One registration -/

/-- What has just been registered is listed. -/
theorem mem_dialects_concat (h : List Dialect) (d : Dialect) :
    d ∈ (ofList (h ++ [d])).dialects := by
  rw [mem_dialects_iff, lastNamed_concat, if_pos rfl]

/-- What has just been registered is the last to declare its keys. -/
theorem lastToDeclare_concat (h : List Dialect) {d : Dialect} {key : String}
    (hkey : d.Declares key) : LastToDeclare (h ++ [d]) key d := by
  rcases hkey with hkey | hkey
  · exact Or.inl ((lastWhere_concat _ h d).trans (if_pos (beq_iff_eq.2 hkey)))
  · exact Or.inr ((lastWhere_concat _ h d).trans (if_pos (List.contains_iff_mem.2 hkey)))

/-- **A registration takes away only what led to the dialect that it replaces.** Where
the new dialect does not declare a key, and the key led to a dialect of another name, it
still does. -/
theorem answer?_concat {h : List Dialect} {d e : Dialect} {key : String}
    (hkey : ¬ d.Declares key) (hname : e.key ≠ d.key) (he : answer? h key = some e) :
    answer? (h ++ [d]) key = some e := by
  have hcontent : ¬ (d.contentKey == lowered key) = true := fun h => hkey (Or.inl (eq_of_beq h))
  have hsuffix : ¬ d.suffixKeys.contains (suffixKey key) = true := fun h =>
    hkey (Or.inr (List.contains_iff_mem.1 h))
  -- a holder of another name keeps its key
  have hkeep : (some e).filter (·.key ≠ d.key) = some e :=
    Option.filter_some_pos (decide_eq_true hname)
  rw [answer?] at he ⊢
  rw [holder?_concat, if_neg hcontent, holder?_concat, if_neg hsuffix, lastNamed_concat]
  cases hc : holder? h (·.contentKey == lowered key) with
  | some c =>
    rw [hc] at he
    obtain rfl : c = e := Option.some.inj he
    rw [hkeep]
    rfl
  | none =>
    cases hs : holder? h (·.suffixKeys.contains (suffixKey key)) with
    | some s =>
      rw [hc, hs] at he
      obtain rfl : s = e := Option.some.inj he
      rw [hkeep]
      rfl
    | none =>
      rw [hc, hs] at he
      have hkeyed : e.key = lowered key := eq_of_beq (prop_of_lastWhere he :)
      rw [if_neg fun h => hname (hkeyed.trans h.symm)]
      exact he

/-! ## The keys of listed dialects -/

/-- **Which keys of listed dialects are found.** Whatever was registered, and in whatever
order:

* a key is found just if the last dialect to declare it is still listed, or if it is the
  name of a listed dialect;
* the name of a listed dialect is always found;
* where a listed dialect declares a key that is not found, the last to declare it was a
  dialect of another name, which has been replaced since;
* a further registration leaves a key that led to a dialect of another name with an
  owner. -/
theorem key_found_iff_last_declarer_listed (h : List Dialect) :
    (∀ key, (∃ e ∈ (ofList h).dialects, (ofList h).lookup key = .ok e)
      ↔ ∃ e ∈ (ofList h).dialects, LastToDeclare h key e ∨ e.key = lowered key)
    ∧ (∀ d ∈ (ofList h).dialects, ∃ e ∈ (ofList h).dialects, (ofList h).lookup d.name = .ok e)
    ∧ (∀ d ∈ (ofList h).dialects, ∀ key, d.Declares key →
      (ofList h).lookup key = .error ⟨key⟩ →
      ∃ e ∈ h, LastToDeclare h key e ∧ e.key ≠ d.key ∧ e ∉ (ofList h).dialects)
    ∧ ∀ d key e, (ofList h).lookup key = .ok e → e.key ≠ d.key →
      ∃ f, (ofList (h ++ [d])).lookup key = .ok f := by
  refine ⟨fun key => lookup_ok_iff, fun d hd => ?_, fun d hd key hkey herror => ?_,
    fun d key e he hname => ?_⟩
  · exact lookup_ok_iff.2 ⟨d, hd, Or.inr rfl⟩
  · rw [lookup_error_iff, lookup_ok_iff] at herror
    obtain ⟨e, he, heq⟩ := exists_lastToDeclare hd hkey
    have hunlisted : e ∉ (ofList h).dialects := fun hmem => herror ⟨e, hmem, Or.inl he⟩
    exact ⟨e, he.mem, he, fun hname => hunlisted (heq hname ▸ hd), hunlisted⟩
  · by_cases hkey : d.Declares key
    · obtain ⟨f, -, hf⟩ :=
        lookup_ok_iff.2 ⟨d, mem_dialects_concat h d, Or.inl (lastToDeclare_concat h hkey)⟩
      exact ⟨f, hf⟩
    · rw [lookup_ofList] at he
      cases ha : answer? h key with
      | none => rw [ha] at he; cases he
      | some f =>
        rw [ha] at he
        cases he
        exact ⟨e, by rw [lookup_ofList, answer?_concat hkey hname ha]; rfl⟩

/-- A dialect takes over the suffix of another and is registered anew without it. The
first is listed and declares the suffix, which leads nowhere: the last to declare it was
the second, as it was before. -/
theorem key_found_iff_last_declarer_listed_of_suffix :
    let lent := { Dialect.classDiagram with suffixes := ["PSEQ"] }
    let h := [Dialect.sequence, lent, Dialect.classDiagram]
    Dialect.sequence ∈ (ofList h).dialects ∧ Dialect.sequence.Declares ".pseq"
    ∧ (ofList h).lookup ".pseq" = .error ⟨".pseq"⟩
    ∧ ∃ e ∈ h, LastToDeclare h ".pseq" e ∧ e.key ≠ Dialect.sequence.key
      ∧ e ∉ (ofList h).dialects := by
  intro lent h
  have hlisted : Dialect.sequence ∈ (ofList h).dialects := by decide +kernel
  have hdeclares : Dialect.sequence.Declares ".pseq" := by decide +kernel
  have herror : (ofList h).lookup ".pseq" = .error ⟨".pseq"⟩ := by
    rw [lookup_ofList, show answer? h ".pseq" = none by decide +kernel]
    rfl
  exact ⟨hlisted, hdeclares, herror,
    (key_found_iff_last_declarer_listed h).2.2.1 _ hlisted _ hdeclares herror⟩

/-- **A registration can leave a key of another dialect without an owner**: not every
listed dialect is found by its content identifier, its suffixes and its name, though
some other that declares the same key would do. -/
theorem not_every_key_of_listed_found :
    ¬ ∀ (h : List Dialect), ∀ d ∈ (ofList h).dialects,
      (∃ e, (ofList h).lookup d.contentId = .ok e)
      ∧ (∀ s ∈ d.suffixes, suffixKey s ≠ [] → ∃ e, (ofList h).lookup s = .ok e)
      ∧ ∃ e, (ofList h).lookup d.name = .ok e := by
  intro hall
  let h := [Dialect.sequence,
    { Dialect.classDiagram with contentId := Dialect.sequence.contentId },
    Dialect.classDiagram]
  have hlisted : Dialect.sequence ∈ (ofList h).dialects := by decide +kernel
  have herror : answer? h Dialect.sequence.contentId = none := by decide +kernel
  obtain ⟨⟨e, he⟩, -, -⟩ := hall h Dialect.sequence hlisted
  rw [lookup_ofList, herror] at he
  cases he

end Registry

end UmlMarkup
