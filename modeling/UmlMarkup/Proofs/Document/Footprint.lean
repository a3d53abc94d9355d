import UmlMarkup.Proofs.Document.Update

/-!
# The footprint of an update

What the cache holds need not be the scan of anything: lines may have changed that were never
announced, or the cache may come from another dialect. An update that leaves the number of
lines alone is still exact in what it does. It scans from the announced line on, starting in
the state that the cache has before that line, and goes on until a line comes out as it was
cached. Up to that **stop**, and with it, the entries are the new ones; all others are
untouched, and every line of this range is logged, once and in order (`update_footprint`).

The stop is told by the entries before the update and by the scan of the new lines
(`StopsAt`). An entry is compared whole, tokens and state, and before it is overwritten, and
a line is scanned from the state that was just computed and not from the one in the cache.
After the update the announced line is up to date, so that a second one stops there at once
and changes nothing.
-/

namespace UmlMarkup

namespace Document

variable {doc : Document} {d : Dialect} {lines : List (List Char)} {index : Nat}

/-- **The entries that the lines from `index` on come to**, the first of them scanned in the
state that the cache has before it. -/
def entriesAhead (doc : Document) (d : Dialect) (lines : List (List Char)) (index : Nat) :
    List Entry :=
  d.entriesFrom (doc.stateBefore index) (lines.drop index)

/-- **An update at `index` stops at the line `k`**: the first from `index` on whose entry
comes out as it was cached, or the last line if there is none. -/
structure StopsAt (doc : Document) (d : Dialect) (lines : List (List Char)) (index k : Nat) :
    Prop where
  le : index ≤ k
  lt : k < lines.length
  changed : ∀ j, index ≤ j → j < k →
    doc.entries[j]? ≠ (doc.entriesAhead d lines index)[j - index]?
  stop : doc.entries[k]? = (doc.entriesAhead d lines index)[k - index]? ∨ k + 1 = lines.length

/-- No update stops behind a line at which it stops. -/
theorem StopsAt.not_lt {i k : Nat} (hi : doc.StopsAt d lines index i)
    (hk : doc.StopsAt d lines index k) : ¬ i < k := by
  intro hlt
  rcases hi.stop with heq | hlast
  · exact hk.changed i hi.le hlt heq
  · exact absurd (Nat.lt_of_lt_of_eq hk.lt hlast.symm) (Nat.not_lt.2 hlt)

/-- There is only one such line. -/
theorem StopsAt.unique {i k : Nat} (hi : doc.StopsAt d lines index i)
    (hk : doc.StopsAt d lines index k) : i = k :=
  Nat.le_antisymm (Nat.le_of_not_lt (hk.not_lt hi)) (Nat.le_of_not_lt (hi.not_lt hk))

/-- **What is computed** is the scan of the lines up to the first whose entry is the cached
one, or up to the last. -/
theorem exists_rescan_eq_take (d : Dialect) (state : ScanState) {cached : List Entry}
    {lines : List (List Char)} (hlen : cached.length = lines.length) (hne : lines ≠ []) :
    ∃ k < lines.length, rescan d state cached lines = (d.entriesFrom state lines).take (k + 1)
      ∧ (∀ j < k, cached[j]? ≠ (d.entriesFrom state lines)[j]?)
      ∧ (cached[k]? = (d.entriesFrom state lines)[k]? ∨ k + 1 = lines.length) := by
  induction lines generalizing state cached with
  | nil => exact absurd rfl hne
  | cons line rest ih =>
    obtain ⟨e, older, rfl⟩ := List.exists_cons_of_length_eq_add_one hlen
    rw [Dialect.entriesFrom, rescan]
    by_cases he : d.scanEntry state line = e
    · rw [if_pos he]
      exact ⟨0, Nat.succ_pos _, rfl, fun j hj => absurd hj (Nat.not_lt_zero j),
        Or.inl (congrArg some he.symm)⟩
    · rw [if_neg he]
      by_cases hrest : rest = []
      · -- no line is left
        subst hrest
        obtain rfl := List.eq_nil_of_length_eq_zero (Nat.succ.inj hlen)
        exact ⟨0, Nat.one_pos, rfl, fun j hj => absurd hj (Nat.not_lt_zero j), Or.inr rfl⟩
      · obtain ⟨k, hk, hrescan, hchanged, hstop⟩ :=
          ih (d.scanEntry state line).stateAfter (Nat.succ.inj hlen) hrest
        refine ⟨k + 1, Nat.succ_lt_succ hk, by rw [hrescan, List.take_succ_cons], ?_, ?_⟩
        · rintro (_ | j) hj
          · exact fun heq => he (Option.some.inj heq).symm
          · exact hchanged j (Nat.lt_of_succ_lt_succ hj)
        · exact hstop.imp id (congrArg Nat.succ)

/-- **An update stops somewhere**, and computes what comes out up to there. -/
theorem exists_stopsAt (d : Dialect) (hlen : doc.entries.length = lines.length)
    (h : index < lines.length) :
    ∃ k, doc.StopsAt d lines index k ∧ doc.freshEntries d lines index
      = (doc.entriesAhead d lines index).take (k + 1 - index) := by
  have hdrop : (doc.entries.drop index).length = (lines.drop index).length := by
    rw [List.length_drop, List.length_drop, hlen]
  obtain ⟨k, hk, hrescan, hchanged, hstop⟩ := exists_rescan_eq_take d (doc.stateBefore index) hdrop
    (mt List.drop_eq_nil_iff.1 (Nat.not_le.2 h))
  rw [List.length_drop] at hk
  refine ⟨index + k, ⟨Nat.le_add_right _ _, by omega, fun j hle hlt => ?_, ?_⟩, ?_⟩
  · have hj := hchanged (j - index) (by omega)
    rwa [List.getElem?_drop, Nat.add_sub_cancel' hle] at hj
  · rw [List.getElem?_drop, List.length_drop] at hstop
    rw [Nat.add_sub_cancel_left]
    exact hstop.imp id fun hlast => by omega
  · rw [show index + k + 1 - index = k + 1 by omega]
    exact hrescan

/-- The entries after an update: a run of them is replaced by those that come out. -/
theorem entries_update {k : Nat} (hlen : doc.entries.length = lines.length)
    (hk : doc.StopsAt d lines index k) :
    ∃ fresh : List Entry, fresh.length = doc.entries.length
      ∧ (∀ j, index ≤ j → fresh[j]? = (doc.entriesAhead d lines index)[j - index]?)
      ∧ (doc.update d lines index).entries = patch doc.entries fresh index (k + 1 - index) := by
  have hindex : index < lines.length := Nat.lt_of_le_of_lt hk.le hk.lt
  have htake : (doc.entries.take index).length = index := by
    rw [List.length_take, hlen, Nat.min_eq_left (Nat.le_of_lt hindex)]
  have hahead : (doc.entriesAhead d lines index).length = lines.length - index := by
    simp [entriesAhead]
  refine ⟨doc.entries.take index ++ doc.entriesAhead d lines index, ?_, fun j hj => ?_, ?_⟩
  · rw [List.length_append, htake, hahead, hlen]
    omega
  · rw [List.getElem?_append_right (htake.symm ▸ hj), htake]
  · obtain ⟨i, hi, hfresh⟩ := exists_stopsAt d hlen hindex
    obtain rfl := hi.unique hk
    have hcount : (doc.freshEntries d lines index).length = i + 1 - index := by
      rw [hfresh, List.length_take, hahead]
      have := hk.lt
      omega
    rw [update_of_length_eq d hindex hlen, hcount, hfresh, patch, List.drop_left' htake,
      List.append_assoc]

/-- **Up to the stop the entries are new**, and all others are as they were. -/
theorem getElem?_update {k : Nat} (hlen : doc.entries.length = lines.length)
    (hk : doc.StopsAt d lines index k) (j : Nat) :
    (doc.update d lines index).entries[j]?
      = if index ≤ j ∧ j ≤ k then (doc.entriesAhead d lines index)[j - index]?
        else doc.entries[j]? := by
  obtain ⟨fresh, hlength, hfresh, hentries⟩ := entries_update hlen hk
  rw [hentries, getElem?_patch hlength.symm, Nat.add_sub_cancel' (Nat.le_succ_of_le hk.le)]
  by_cases hj : index ≤ j ∧ j ≤ k
  · rw [if_pos hj, if_pos ⟨hj.1, Nat.lt_succ_of_le hj.2⟩, hfresh j hj.1]
  · rw [if_neg hj, if_neg fun h => hj ⟨h.1, Nat.le_of_lt_succ h.2⟩]

/-- The events of an update: every line up to the stop is logged, with the mode behind it. -/
theorem updateEvents_eq_zipWith {k : Nat} (hlen : doc.entries.length = lines.length)
    (hk : doc.StopsAt d lines index k) :
    doc.updateEvents d lines index
      = List.zipWith (fun j e => .rescanned j e.stateAfter.mode)
        (List.range' index (k + 1 - index)) (doc.entriesAhead d lines index) := by
  have hindex : index < lines.length := Nat.lt_of_le_of_lt hk.le hk.lt
  obtain ⟨i, hi, hfresh⟩ := exists_stopsAt d hlen hindex
  obtain rfl := hi.unique hk
  rw [updateEvents, if_neg (Nat.not_le.2 hindex), if_neg (not_not_intro hlen), hfresh]
  refine List.ext_getElem? fun n => ?_
  rw [List.getElem?_mapIdx, List.getElem?_zipWith, List.getElem?_take]
  by_cases hn : n < i + 1 - index
  · rw [if_pos hn, List.getElem?_range' hn, Nat.one_mul]
    cases (doc.entriesAhead d lines index)[n]? <;> rfl
  · rw [if_neg hn, List.getElem?_eq_none (List.length_range'.symm ▸ Nat.le_of_not_lt hn)]
    rfl

/-- A cache that agrees before a line starts the line in the same state. -/
theorem stateBefore_congr {other : Document}
    (h : ∀ j < index, other.entries[j]? = doc.entries[j]?) :
    other.stateBefore index = doc.stateBefore index := by
  cases index with
  | zero => rfl
  | succ n => rw [stateBefore, h n (Nat.lt_succ_self n), stateBefore]

/-- **An update is done once**: the line at which it starts is up to date then. -/
theorem update_update (hlen : doc.entries.length = lines.length) :
    (doc.update d lines index).update d lines index = doc.update d lines index := by
  by_cases h : lines.length ≤ index
  · simp [h]
  · obtain ⟨k, hk, -⟩ := exists_stopsAt d hlen (Nat.lt_of_not_le h)
    have hentries := getElem?_update hlen hk
    have hlen' : (doc.update d lines index).entries.length = lines.length := by
      obtain ⟨fresh, hlength, -, hpatch⟩ := entries_update hlen hk
      rw [hpatch, length_patch hlength.symm, hlen]
    have hstate : (doc.update d lines index).stateBefore index = doc.stateBefore index :=
      stateBefore_congr fun j hj => by
        rw [hentries, if_neg fun hle => absurd hj (Nat.not_lt.2 hle.1)]
    have hahead : (doc.update d lines index).entriesAhead d lines index
        = doc.entriesAhead d lines index := by
      rw [entriesAhead, hstate, entriesAhead]
    have hstop : (doc.update d lines index).StopsAt d lines index index :=
      ⟨Nat.le_refl _, Nat.lt_of_not_le h, fun j hle hlt => absurd hlt (Nat.not_lt.2 hle),
        Or.inl (by rw [hentries, if_pos ⟨Nat.le_refl _, hk.le⟩, hahead])⟩
    -- the second update writes the entry that is there already
    have hsame : ((doc.update d lines index).update d lines index).entries
        = (doc.update d lines index).entries := List.ext_getElem? fun j => by
      rw [getElem?_update hlen' hstop]
      split
      · next hj =>
        obtain rfl := Nat.le_antisymm hj.1 hj.2
        rw [hahead, hentries, if_pos ⟨Nat.le_refl _, hk.le⟩]
      · rfl
    exact congrArg Document.mk hsame

/-- **What an update does and what it leaves alone**, whatever is cached. If the index lies
beyond the lines nothing changes and nothing is logged. Otherwise there is one line at which
the update stops: from the index up to that line the entries are those that come out, all
others are untouched, and exactly these lines are logged, in order, each with the mode behind
it. The same update once more changes nothing. -/
theorem update_footprint (doc : Document) (d : Dialect) (lines : List (List Char))
    (hlen : doc.entries.length = lines.length) (index : Nat) :
    (lines.length ≤ index →
      doc.update d lines index = doc ∧ doc.updateEvents d lines index = [])
    ∧ (index < lines.length → ∃ k, (∀ i, doc.StopsAt d lines index i ↔ i = k)
      ∧ (∀ j, (doc.update d lines index).entries[j]?
        = if index ≤ j ∧ j ≤ k then (doc.entriesAhead d lines index)[j - index]?
          else doc.entries[j]?)
      ∧ doc.updateEvents d lines index
        = List.zipWith (fun j e => .rescanned j e.stateAfter.mode)
          (List.range' index (k + 1 - index)) (doc.entriesAhead d lines index))
    ∧ (doc.update d lines index).update d lines index = doc.update d lines index := by
  refine ⟨fun h => ⟨update_of_le d h, by rw [updateEvents, if_pos h]⟩, fun h => ?_, ?_⟩
  · obtain ⟨k, hk, -⟩ := exists_stopsAt d hlen h
    exact ⟨k, fun i => ⟨fun hi => hi.unique hk, fun hi => hi ▸ hk⟩, getElem?_update hlen hk,
      updateEvents_eq_zipWith hlen hk⟩
  · exact update_update hlen

/-- Three lines of which a sequence diagram and a class diagram read the first and the last
differently. -/
def actorLines : List (List Char) := ["actor A".toList, "b".toList, "end ref".toList]

/-- The lines cached as a class diagram and updated as a sequence diagram: an update of the
first line stops at the second, which both read alike, and the third stays as it is. -/
theorem update_footprint_of_other_dialect :
    (ofLines .classDiagram actorLines).entries.length = actorLines.length
    ∧ (ofLines .classDiagram actorLines).StopsAt .sequence actorLines 0 1
    ∧ (∀ j, ((ofLines .classDiagram actorLines).update .sequence actorLines 0).entries[j]?
      = if 0 ≤ j ∧ j ≤ 1 then
          ((ofLines .classDiagram actorLines).entriesAhead .sequence actorLines 0)[j - 0]?
        else (ofLines .classDiagram actorLines).entries[j]?)
    ∧ (ofLines .classDiagram actorLines).updateEvents .sequence actorLines 0
      = [.rescanned 0 .normal, .rescanned 1 .normal]
    ∧ (ofLines .classDiagram actorLines).update .sequence actorLines 3
      = ofLines .classDiagram actorLines
    ∧ ((ofLines .classDiagram actorLines).update .sequence actorLines 0).update
        .sequence actorLines 0
      = (ofLines .classDiagram actorLines).update .sequence actorLines 0 := by
  have hlen : (ofLines .classDiagram actorLines).entries.length = actorLines.length := by
    decide +kernel
  have hstop : (ofLines .classDiagram actorLines).StopsAt .sequence actorLines 0 1 := by
    refine ⟨Nat.zero_le 1, by decide, fun j _ hj => ?_, Or.inl (by decide +kernel)⟩
    obtain rfl := Nat.lt_one_iff.1 hj
    decide +kernel
  have hfirst := update_footprint (ofLines .classDiagram actorLines) .sequence actorLines hlen 0
  have hbeyond := update_footprint (ofLines .classDiagram actorLines) .sequence actorLines hlen 3
  obtain ⟨k, hk, hentries, hevents⟩ := hfirst.2.1 (by decide)
  obtain rfl := (hk 1).1 hstop
  exact ⟨hlen, hstop, hentries, hevents.trans (by decide +kernel), (hbeyond.1 (by decide)).1,
    hfirst.2.2⟩

end Document

end UmlMarkup
