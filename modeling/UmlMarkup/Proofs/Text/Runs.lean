import Mathlib.Data.List.TakeWhile

/-!
# Runs of a class of characters

A scanner passes runs: blanks, the gap between two words, a word, the digits of a number. A
run of a class of characters is told by where it ends: nothing of the class stands behind it
(`takeWhile_append_of_stop`). Every text starts with such a run, if only with an empty one
(`exists_run`), and in only one way (`run_unique`). So what is read in runs can be described
by its parts, and no lemma about words, gaps or numbers has to compute `List.takeWhile`.
-/

namespace UmlMarkup

/-- Behind a run stands what is left without it. -/
@[simp] theorem drop_length_takeWhile {α : Type} (p : α → Bool) (text : List α) :
    text.drop (text.takeWhile p).length = text.dropWhile p := by
  have h := congrArg (List.drop (text.takeWhile p).length)
    (List.takeWhile_append_dropWhile (p := p) (l := text))
  rw [List.drop_left] at h
  exact h.symm

variable {p : Char → Bool}

/-- A run goes as far as it can. -/
@[simp] theorem any_head?_dropWhile (text : List Char) :
    (text.dropWhile p).head?.any p = false := by
  have h := List.head?_dropWhile_not p text
  cases hc : (text.dropWhile p).head? with
  | none => rfl
  | some c => rwa [hc] at h

@[simp] theorem takeWhile_of_stop {text : List Char} (h : text.head?.any p = false) :
    text.takeWhile p = [] := by
  cases text with
  | nil => rfl
  | cons c text => exact List.takeWhile_cons_of_neg (ne_true_of_eq_false h)

/-- **A run is told by where it ends.** -/
@[simp] theorem takeWhile_append_of_stop {run rest : List Char} (hrun : ∀ c ∈ run, p c = true)
    (hrest : rest.head?.any p = false) : (run ++ rest).takeWhile p = run := by
  simp [List.takeWhile_append_of_pos hrun, hrest]

/-- **Every text starts with a run**, if only with an empty one. -/
theorem exists_run (p : Char → Bool) (text : List Char) : ∃ run rest, text = run ++ rest
    ∧ (∀ c ∈ run, p c = true) ∧ rest.head?.any p = false :=
  ⟨text.takeWhile p, text.dropWhile p, List.takeWhile_append_dropWhile.symm,
    List.all_eq_true.1 List.all_takeWhile, any_head?_dropWhile text⟩

/-- It does so in only one way. -/
theorem run_unique {run run' rest rest' : List Char} (hrun : ∀ c ∈ run, p c = true)
    (hrun' : ∀ c ∈ run', p c = true) (hrest : rest.head?.any p = false)
    (hrest' : rest'.head?.any p = false) (h : run ++ rest = run' ++ rest') :
    run = run' ∧ rest = rest' := by
  have hruns := congrArg (List.takeWhile p) h
  rw [takeWhile_append_of_stop hrun hrest, takeWhile_append_of_stop hrun' hrest'] at hruns
  subst hruns
  exact ⟨rfl, List.append_cancel_left h⟩

end UmlMarkup
