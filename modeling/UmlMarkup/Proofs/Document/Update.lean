import Mathlib.Data.List.Induction
import UmlMarkup.Dialect.Builtin
import UmlMarkup.Proofs.Scan.Threading

/-!
# A cache brought up to date is a full scan

An update that leaves the number of lines alone scans from the announced line on
and stops at the first line whose entry comes out as it was. What it leaves
behind is in general the scan neither of the old lines nor of the new ones: the
entries after the stop still speak of the old lines. They do so consistently,
though. The entry at which the scan stopped holds the state that the old lines
would have left there, so the kept entries go on from the right state, and the
whole cache is the scan of a **mixture**, the old lines with those that were
scanned again replaced (`update_ofLines`).

A mixture has the new line wherever an update was announced, and may have the
old one only elsewhere. Once every line that differs was announced, in whatever
order and however often, there is only one mixture left, the new lines. So the
updates are confluent with a full scan (`update_confluent`).

When the number of lines changes the cache says nothing about the new lines and
everything is scanned again – unless the index lies beyond the new lines, which
is looked at first. An editor that announces the deletion of the last line by
its old index is therefore left with the cache as it was
(`update_eq_ofLines_iff`).
-/

namespace UmlMarkup

namespace Document

/-! ## Replacing a run of lines -/

variable {α : Type}

/-- The lines `old` with the `count` lines from `start` on replaced by those of
`new`. -/
def patch (old new : List α) (start count : Nat) : List α :=
  old.take start ++ ((new.drop start).take count ++ old.drop (start + count))

@[simp] theorem patch_of_length_le {old new : List α} {start : Nat} (hold : old.length ≤ start)
    (hnew : new.length ≤ start) (count : Nat) : patch old new start count = old := by
  rw [patch, List.take_of_length_le hold, List.drop_eq_nil_of_le hnew,
    List.drop_eq_nil_of_le (Nat.le_trans hold (Nat.le_add_right start count)),
    List.take_nil, List.append_nil, List.append_nil]

@[simp] theorem patch_cons_succ (o n : α) (old new : List α) (count : Nat) :
    patch (o :: old) (n :: new) 0 (count + 1) = n :: patch old new 0 count := by
  simp [patch]

/-- Replacing from `start` on leaves what stands before it. -/
theorem patch_eq_append (old new : List α) (start count : Nat) :
    patch old new start count
      = old.take start ++ patch (old.drop start) (new.drop start) 0 count := by
  simp [patch]

theorem getElem?_patch {old new : List α} (hlen : old.length = new.length)
    (start count i : Nat) :
    (patch old new start count)[i]?
      = if start ≤ i ∧ i < start + count then new[i]? else old[i]? := by
  unfold patch
  rw [List.getElem?_append, List.getElem?_append, List.getElem?_take, List.getElem?_take,
    List.getElem?_drop, List.getElem?_drop]
  simp only [List.length_take, List.length_drop]
  grind

@[simp] theorem length_patch {old new : List α} (hlen : old.length = new.length)
    (start count : Nat) : (patch old new start count).length = old.length := by
  simp only [patch, List.length_append, List.length_take, List.length_drop]
  omega

/-! ## One update -/

section Cases

variable (d : Dialect) {doc : Document} {lines : List (List Char)} {index : Nat}

/-- An index beyond the lines changes nothing. -/
@[simp] theorem update_of_le (h : lines.length ≤ index) : doc.update d lines index = doc := by
  rw [update, if_pos h]

/-- Another number of lines scans everything again. -/
theorem update_of_length_ne (h : index < lines.length)
    (hlen : doc.entries.length ≠ lines.length) :
    doc.update d lines index = ofLines d lines := by
  rw [update, if_neg (Nat.not_le.2 h), if_pos hlen]

/-- The same number of lines replaces a run of entries. -/
theorem update_of_length_eq (h : index < lines.length)
    (hlen : doc.entries.length = lines.length) :
    doc.update d lines index
      = ⟨doc.entries.take index ++ doc.freshEntries d lines index
          ++ doc.entries.drop (index + (doc.freshEntries d lines index).length)⟩ := by
  rw [update, if_neg (Nat.not_le.2 h), if_neg (not_not_intro hlen)]

end Cases

/-- What an update of the cached scan of `old` computes, followed by the entries
it keeps, is the scan of the lines with as many of `old` replaced by `new`.

The two scans need not start in the same state: that the states agree from the
stop on is what stopping there means. -/
theorem rescan_append_drop (d : Dialect) (state cached : ScanState)
    {old new : List (List Char)} (hlen : old.length = new.length) :
    rescan d state (d.entriesFrom cached old) new
        ++ (d.entriesFrom cached old).drop
            (rescan d state (d.entriesFrom cached old) new).length
      = d.entriesFrom state
          (patch old new 0 (rescan d state (d.entriesFrom cached old) new).length) := by
  -- both lists of lines are read in step, each scan in a state of its own
  induction old generalizing state cached new with
  | nil =>
    rw [List.eq_nil_of_length_eq_zero hlen.symm]
    rfl
  | cons o old ih =>
    cases new with
    | nil => cases hlen
    | cons n new =>
      simp only [Dialect.entriesFrom_cons, rescan, Dialect.scanEntry_eq,
        ScannedLine.stateAfter_entry]
      by_cases he : (d.scanLine state n).entry = (d.scanLine cached o).entry
      · -- the stop: from here on both scans are in the same state
        have hs : (d.scanLine state n).stateAfter = (d.scanLine cached o).stateAfter :=
          congrArg Entry.stateAfter he
        rw [if_pos he, List.length_singleton, patch_cons_succ, Dialect.entriesFrom_cons, hs]
        rfl
      · simp [he,
          ih (d.scanLine state n).stateAfter (d.scanLine cached o).stateAfter (Nat.succ.inj hlen)]

/-- At least the line at which it starts is scanned again. -/
theorem length_rescan_pos (d : Dialect) (state : ScanState) {older : List Entry}
    {new : List (List Char)} (holder : older ≠ []) (hnew : new ≠ []) :
    0 < (rescan d state older new).length := by
  cases older with
  | nil => exact absurd rfl holder
  | cons e older =>
    cases new with
    | nil => exact absurd rfl hnew
    | cons n new =>
      unfold rescan
      dsimp only
      split
      · exact Nat.one_pos
      · exact Nat.succ_pos _

theorem freshEntries_ofLines (d : Dialect) {mix : List (List Char)} {index : Nat}
    (new : List (List Char)) (hindex : index ≤ mix.length) :
    (ofLines d mix).freshEntries d new index
      = rescan d (d.stateAfter .initial (mix.take index))
          (d.entriesFrom (d.stateAfter .initial (mix.take index)) (mix.drop index))
          (new.drop index) := by
  rw [freshEntries, stateBefore_ofLines d hindex, ← Dialect.drop_entriesFrom]
  rfl

/-- **One update replaces a run of lines.** Announcing the line at `index` to the
scan of `mix` leaves the scan of `mix` with some lines of `new` in it, that line
among them if there is one. -/
theorem update_ofLines (d : Dialect) {mix new : List (List Char)}
    (hlen : mix.length = new.length) (index : Nat) :
    ∃ count, (index < new.length → 0 < count) ∧
      (ofLines d mix).update d new index = ofLines d (patch mix new index count) := by
  by_cases hi : new.length ≤ index
  · -- beyond the last line nothing happens, and nothing is replaced
    refine ⟨0, fun h => absurd h (Nat.not_lt.2 hi), ?_⟩
    rw [update_of_le d hi, patch_of_length_le (hlen ▸ hi) hi]
  · have hmix : ¬ mix.length ≤ index := hlen ▸ hi
    have hentries : (ofLines d mix).entries.length = new.length :=
      (d.length_entriesFrom .initial mix).trans hlen
    have hfresh := freshEntries_ofLines d new (Nat.le_of_not_le hmix)
    refine ⟨((ofLines d mix).freshEntries d new index).length, fun _ => ?_, ?_⟩
    · rw [hfresh]
      refine length_rescan_pos d _ ?_ ?_
      · rwa [← Dialect.drop_entriesFrom, Ne, List.drop_eq_nil_iff,
          Dialect.length_entriesFrom]
      · rwa [Ne, List.drop_eq_nil_iff]
    · have hdrop : (mix.drop index).length = (new.drop index).length := by
        rw [List.length_drop, List.length_drop, hlen]
      rw [update_of_length_eq d (Nat.lt_of_not_le hi) hentries]
      -- the entries before `index` are kept, and what follows is one scan from there
      refine congrArg Document.mk ?_
      show (d.entriesFrom .initial mix).take index ++ _
          ++ (d.entriesFrom .initial mix).drop _ = d.entriesFrom .initial _
      rw [List.append_assoc, Dialect.take_entriesFrom, ← List.drop_drop,
        Dialect.drop_entriesFrom, hfresh, rescan_append_drop d _ _ hdrop,
        ← Dialect.entriesFrom_append, ← patch_eq_append]

/-! ## Any number of updates -/

/-- **What the cache holds while updates are under way**: each of its lines is
the new one or the old one, and the old one only where none of the indices in
`announced` points. -/
structure Mixture (old new : List α) (announced : List Nat) (mix : List α) : Prop where
  length_eq : mix.length = new.length
  getElem?_eq : ∀ i, mix[i]? = new[i]? ∨ mix[i]? = old[i]? ∧ i ∉ announced

/-- Before any update the lines are the old ones. -/
theorem Mixture.refl {old new : List α} (hlen : old.length = new.length) :
    Mixture old new [] old :=
  ⟨hlen, fun _ => Or.inr ⟨rfl, List.not_mem_nil⟩⟩

/-- Once every line that differs was announced the lines are the new ones. -/
theorem Mixture.eq_of_announced {old new mix : List α} {announced : List Nat}
    (h : Mixture old new announced mix)
    (hann : ∀ i < new.length, old[i]? ≠ new[i]? → i ∈ announced) : mix = new := by
  refine List.ext_getElem? (fun i => ?_)
  rcases h.getElem?_eq i with hi | ⟨hi, hnot⟩
  · exact hi
  · by_cases hlt : i < new.length
    · rw [hi]
      exact not_not.1 fun hne => hnot (hann i hlt hne)
    · have hle := Nat.le_of_not_lt hlt
      rw [List.getElem?_eq_none hle, List.getElem?_eq_none (h.length_eq ▸ hle)]

/-- Replacing a run of lines that starts where one is announced keeps a
mixture. -/
theorem Mixture.patch {old new mix : List α} {announced : List Nat}
    (h : Mixture old new announced mix) {index count : Nat}
    (hcount : index < new.length → 0 < count) :
    Mixture old new (announced ++ [index]) (patch mix new index count) := by
  refine ⟨(length_patch h.length_eq index count).trans h.length_eq, fun i => ?_⟩
  rw [getElem?_patch h.length_eq]
  by_cases hrun : index ≤ i ∧ i < index + count
  · rw [if_pos hrun]
    exact Or.inl rfl
  · rw [if_neg hrun]
    rcases h.getElem?_eq i with hi | ⟨hi, hnot⟩
    · exact Or.inl hi
    · by_cases hlt : i < new.length
      · refine Or.inr ⟨hi, fun hmem => ?_⟩
        rcases List.mem_append.1 hmem with hmem | hmem
        · exact hnot hmem
        · -- the line announced is the first of the run
          rw [List.mem_singleton.1 hmem] at hlt hrun
          exact hrun ⟨Nat.le_refl _, Nat.lt_add_of_pos_right (hcount hlt)⟩
      · have hle := Nat.le_of_not_lt hlt
        exact Or.inl (by
          rw [List.getElem?_eq_none hle, List.getElem?_eq_none (h.length_eq ▸ hle)])

/-- **The cache is always the scan of a mixture**, whichever lines were
announced and in whatever order. -/
theorem exists_mixture_foldl_update (d : Dialect) {old new : List (List Char)}
    (hlen : old.length = new.length) (indices : List Nat) :
    ∃ mix, Mixture old new indices mix ∧
      indices.foldl (fun doc i => doc.update d new i) (ofLines d old) = ofLines d mix := by
  -- the latest update stands last, so the list is taken apart at its end
  induction indices using List.reverseRecOn with
  | nil => exact ⟨old, Mixture.refl hlen, rfl⟩
  | append_singleton indices index ih =>
    obtain ⟨mix, hmix, hfold⟩ := ih
    obtain ⟨count, hcount, hupdate⟩ := update_ofLines d hmix.length_eq index
    refine ⟨Document.patch mix new index count, hmix.patch hcount, ?_⟩
    rw [List.foldl_append, hfold]
    exact hupdate

/-! ## Revisions -/

/-- The lines of a document after an edit, and the indices at which the edit is
announced, in the order of the updates. -/
structure Revision where
  lines : List (List Char)
  announced : List Nat

/-- Announces an edit to the cache. -/
def revise (d : Dialect) (doc : Document) (r : Revision) : Document :=
  r.announced.foldl (fun doc i => doc.update d r.lines i) doc

/-- **An edit is announced in full**: it leaves the number of lines alone, and
every line that it changes is among those announced. -/
structure Revision.Follows (r : Revision) (old : List (List Char)) : Prop where
  length_eq : old.length = r.lines.length
  announced : ∀ i < r.lines.length, old[i]? ≠ r.lines[i]? → i ∈ r.announced

/-- Every edit is announced in full, each against the lines the one before
left. -/
def AllFollow (old : List (List Char)) : List Revision → Prop
  | [] => True
  | r :: rest => r.Follows old ∧ AllFollow r.lines rest

/-- The lines after all edits. -/
def latest (old : List (List Char)) : List Revision → List (List Char)
  | [] => old
  | r :: rest => latest r.lines rest

theorem revise_ofLines (d : Dialect) {old : List (List Char)} (r : Revision)
    (h : r.Follows old) : revise d (ofLines d old) r = ofLines d r.lines := by
  obtain ⟨mix, hmix, hfold⟩ := exists_mixture_foldl_update d h.length_eq r.announced
  rw [revise, hfold, hmix.eq_of_announced h.announced]

/-- **Updates are confluent with a full scan.** Whatever the order of the updates
and however often each is repeated, once they name every line that differs the
cache is the scan of the new lines; and so it is after any number of edits
announced that way. -/
theorem update_confluent (d : Dialect) :
    (∀ (old new : List (List Char)) (indices : List Nat), old.length = new.length →
      (∀ i < new.length, old[i]? ≠ new[i]? → i ∈ indices) →
      indices.foldl (fun doc i => doc.update d new i) (ofLines d old) = ofLines d new)
    ∧ ∀ (old : List (List Char)) (revisions : List Revision), AllFollow old revisions →
      revisions.foldl (revise d) (ofLines d old) = ofLines d (latest old revisions) := by
  refine ⟨fun old new indices hlen hann => ?_, fun old revisions h => ?_⟩
  · exact revise_ofLines d ⟨new, indices⟩ ⟨hlen, hann⟩
  · induction revisions generalizing old with
    | nil => rfl
    | cons r rest ih =>
      rw [List.foldl_cons, revise_ofLines d r h.1]
      exact ih r.lines h.2

/-- A comment is opened above a line and closed below it, the closing line
announced first, and then taken away again. -/
theorem update_confluent_of_comment :
    [['a'], ['b'], ['c']].length = [['/', '\''], ['b'], ['\'', '/']].length
    ∧ (∀ i < 3, [['a'], ['b'], ['c']][i]? ≠ [['/', '\''], ['b'], ['\'', '/']][i]?
        → i ∈ [2, 0, 0])
    ∧ [2, 0, 0].foldl
        (fun doc i => doc.update Dialect.sequence [['/', '\''], ['b'], ['\'', '/']] i)
        (ofLines Dialect.sequence [['a'], ['b'], ['c']])
      = ofLines Dialect.sequence [['/', '\''], ['b'], ['\'', '/']]
    ∧ AllFollow [['a'], ['b'], ['c']]
        [⟨[['/', '\''], ['b'], ['\'', '/']], [2, 0]⟩, ⟨[['a'], ['b'], ['c']], [0, 1, 2]⟩]
    ∧ [⟨[['/', '\''], ['b'], ['\'', '/']], [2, 0]⟩, ⟨[['a'], ['b'], ['c']], [0, 1, 2]⟩].foldl
        (revise Dialect.sequence) (ofLines Dialect.sequence [['a'], ['b'], ['c']])
      = ofLines Dialect.sequence [['a'], ['b'], ['c']] := by
  have hann : ∀ i < 3, [['a'], ['b'], ['c']][i]? ≠ [['/', '\''], ['b'], ['\'', '/']][i]?
      → i ∈ [2, 0, 0] := by decide
  have hfollow : AllFollow [['a'], ['b'], ['c']]
      [⟨[['/', '\''], ['b'], ['\'', '/']], [2, 0]⟩, ⟨[['a'], ['b'], ['c']], [0, 1, 2]⟩] :=
    ⟨⟨rfl, by decide⟩, ⟨rfl, by decide⟩, trivial⟩
  exact ⟨rfl, hann, (update_confluent Dialect.sequence).1 _ _ _ rfl hann, hfollow,
    (update_confluent Dialect.sequence).2 _ _ hfollow⟩

/-! ## When the number of lines has changed -/

/-- **A change in the number of lines scans everything again exactly when the
index lies within the new lines**, and otherwise leaves the cache as it was, with
the wrong number of entries. -/
theorem update_eq_ofLines_iff (d : Dialect) {doc : Document} {lines : List (List Char)}
    (hlen : lines.length ≠ doc.entries.length) (index : Nat) :
    (doc.update d lines index = ofLines d lines ↔ index < lines.length)
    ∧ (lines.length ≤ index → doc.update d lines index = doc) := by
  refine ⟨⟨fun h => Nat.lt_of_not_le fun hle => hlen ?_,
    fun h => update_of_length_ne d h hlen.symm⟩, update_of_le d⟩
  -- a cache that was left as it was has the wrong number of entries
  rw [show doc = ofLines d lines from (update_of_le d hle).symm.trans h]
  exact (d.length_entriesFrom .initial lines).symm

/-- With the last of two lines deleted, an update announced at the first line
scans again and one announced at the deleted line does not. -/
theorem update_eq_ofLines_iff_of_deleted_line :
    [['a']].length ≠ (ofLines Dialect.sequence [['a'], ['/', '\'']]).entries.length
    ∧ (ofLines Dialect.sequence [['a'], ['/', '\'']]).update Dialect.sequence [['a']] 0
      = ofLines Dialect.sequence [['a']]
    ∧ (ofLines Dialect.sequence [['a'], ['/', '\'']]).update Dialect.sequence [['a']] 1
      = ofLines Dialect.sequence [['a'], ['/', '\'']] := by
  have hlen : [['a']].length
      ≠ (ofLines Dialect.sequence [['a'], ['/', '\'']]).entries.length := by
    decide +kernel
  exact ⟨hlen, (update_eq_ofLines_iff Dialect.sequence hlen 0).1.2 Nat.one_pos,
    (update_eq_ofLines_iff Dialect.sequence hlen 1).2 (Nat.le_refl 1)⟩

/-- **A deleted last line stays in the cache.** The line that opened a comment is
gone, and the update that announces it at its old index leaves the document
unterminated all the same. -/
theorem update_deleted_last_line_ne_ofLines :
    [['a']].length ≠ (ofLines Dialect.sequence [['a'], ['/', '\'']]).entries.length
    ∧ (ofLines Dialect.sequence [['a'], ['/', '\'']]).update Dialect.sequence [['a']] 1
      ≠ ofLines Dialect.sequence [['a']]
    ∧ ((ofLines Dialect.sequence [['a'], ['/', '\'']]).update
        Dialect.sequence [['a']] 1).unterminated? = some ⟨[.blockComment]⟩
    ∧ (ofLines Dialect.sequence [['a']]).unterminated? = none := by
  decide +kernel

end Document

end UmlMarkup
