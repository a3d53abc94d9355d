import Mathlib.Data.List.Basic
import UmlMarkup.Text

/-!
# What the lines of a text are

`Splits` says what the lines of a text are without saying how they are found: what is
left when the line feeds are taken out, each with the carriage return right before it.
Two points decide between this and other ways to split. A line feed ends a line and
starts none, so that nothing comes behind the last one; and a carriage return counts only
together with a line feed, and is a character like any other without.

A text has just one splitting (`splits_iff`), and a text that is cut behind a line feed
has the lines of its two parts (`lines_append`): no line is made out of nothing there,
and no carriage return is parted from its line feed.
-/

namespace UmlMarkup

/-- **The lines of a text**, told from what stands between them: each but the last ends in
a line feed, or in a carriage return and a line feed, and the last may go without. -/
inductive Splits : List Char → List (List Char) → Prop
  /-- A text without characters has no line. -/
  | nil : Splits [] []
  /-- The last line goes without a line feed. -/
  | last {row : List Char} (hne : row ≠ []) (hrow : '\n' ∉ row) : Splits row [row]
  | lineFeed {row rest : List Char} {rows : List (List Char)} (hrow : '\n' ∉ row)
    (hreturn : row.getLast? ≠ some '\r') (h : Splits rest rows) :
    Splits (row ++ '\n' :: rest) (row :: rows)
  | returnLineFeed {row rest : List Char} {rows : List (List Char)} (hrow : '\n' ∉ row)
    (h : Splits rest rows) : Splits (row ++ '\r' :: '\n' :: rest) (row :: rows)

/-- A character that ends no line belongs to the line that goes on behind it. -/
theorem lines_cons {c : Char} {text line : List Char} {more : List (List Char)}
    (hfeed : c ≠ '\n') (hreturn : c = '\r' → text.head? ≠ some '\n')
    (h : lines text = line :: more) : lines (c :: text) = (c :: line) :: more := by
  rw [lines.eq_4 c text hfeed fun rest hc ht => hreturn hc (by rw [ht]; rfl), h]

/-- So does a text without line feeds, if it does not take the carriage return from the
line feed. -/
theorem lines_append_row {row text line : List Char} {more : List (List Char)}
    (hrow : '\n' ∉ row) (hreturn : row.getLast? = some '\r' → text.head? ≠ some '\n')
    (h : lines text = line :: more) : lines (row ++ text) = (row ++ line) :: more := by
  induction row with
  | nil => exact h
  | cons c row ih =>
    obtain ⟨hc, hrow⟩ := List.ne_and_not_mem_of_not_mem_cons hrow
    cases row with
    | nil => exact lines_cons hc.symm (fun he => hreturn (congrArg some he)) h
    | cons b row =>
      rw [List.getLast?_cons_cons] at hreturn
      refine lines_cons hc.symm (fun _ hb => ?_) (ih hrow hreturn)
      exact (List.ne_and_not_mem_of_not_mem_cons hrow).1 (Option.some.inj hb).symm

/-- A text without line feeds is one line. -/
theorem lines_eq_singleton {row : List Char} (hne : row ≠ []) (hrow : '\n' ∉ row) :
    lines row = [row] := by
  obtain ⟨front, c, rfl⟩ := (List.eq_nil_or_concat' row).resolve_left hne
  obtain ⟨hfront, hc⟩ : '\n' ∉ front ∧ '\n' ≠ c := by simpa using hrow
  have hlast : lines [c] = [[c]] := by
    rw [lines.eq_4 c [] hc.symm fun rest _ ht => nomatch ht]
    rfl
  exact lines_append_row hfront (fun _ he => hc (Option.some.inj he).symm) hlast

namespace Splits

variable {text rest : List Char} {rows rows' : List (List Char)}

/-- A character that ends no line belongs to the line that goes on behind it. -/
theorem cons {c : Char} {row : List Char} (h : Splits text (row :: rows)) (hc : c ≠ '\n')
    (hreturn : c = '\r' → text.head? ≠ some '\n') : Splits (c :: text) ((c :: row) :: rows) := by
  have hmem : ∀ {row : List Char}, '\n' ∉ row → '\n' ∉ c :: row :=
    List.not_mem_cons_of_ne_of_not_mem hc.symm
  cases h with
  | last _ hrow => exact .last (List.cons_ne_nil c _) (hmem hrow)
  | lineFeed hrow hlast h =>
    refine .lineFeed (hmem hrow) ?_ h
    cases row with
    | nil => exact fun he => hreturn (Option.some.inj he) rfl
    | cons b front => rwa [List.getLast?_cons_cons]
  | returnLineFeed hrow h => exact .returnLineFeed (hmem hrow) h

/-- No line holds a line feed. -/
theorem newline_notMem (h : Splits text rows) {row : List Char} (hrow : row ∈ rows) :
    '\n' ∉ row := by
  induction h with
  | nil => cases hrow
  | last _ h => exact List.mem_singleton.1 hrow ▸ h
  | lineFeed h _ _ ih => exact (List.mem_cons.1 hrow).elim (fun he => he ▸ h) ih
  | returnLineFeed h _ ih => exact (List.mem_cons.1 hrow).elim (fun he => he ▸ h) ih

/-- **Behind a line feed splittings are put together.** -/
theorem append (h : Splits text rows) (hend : text = [] ∨ text.getLast? = some '\n')
    (h' : Splits rest rows') : Splits (text ++ rest) (rows ++ rows') := by
  -- what is left behind the first line ends as the text does
  have htail : ∀ u v : List Char, u ++ '\n' :: v = [] ∨ (u ++ '\n' :: v).getLast? = some '\n' →
      v = [] ∨ v.getLast? = some '\n' := by
    rintro u v (hend | hend)
    · cases (List.append_eq_nil_iff.1 hend).2
    · rw [List.getLast?_append_of_ne_nil u (List.cons_ne_nil _ v)] at hend
      cases v with
      | nil => exact Or.inl rfl
      | cons c v => exact Or.inr (by rwa [List.getLast?_cons_cons] at hend)
  induction h with
  | nil => exact h'
  | last hne hrow =>
    exact hend.elim (fun he => absurd he hne) fun he => absurd (List.mem_of_getLast? he) hrow
  | @lineFeed row text _ hrow hlast _ ih =>
    rw [List.append_assoc, List.cons_append, List.cons_append]
    exact .lineFeed hrow hlast (ih (htail row text hend))
  | @returnLineFeed row text _ hrow _ ih =>
    rw [List.append_assoc, List.cons_append, List.cons_append, List.cons_append]
    refine .returnLineFeed hrow (ih (htail (row ++ ['\r']) text ?_))
    rwa [List.append_assoc]

/-- A text has no other splitting than its lines. -/
theorem lines_eq (h : Splits text rows) : lines text = rows := by
  induction h with
  | nil => rfl
  | last hne hrow => exact lines_eq_singleton hne hrow
  | @lineFeed row rest rows hrow hlast _ ih =>
    have hend : lines ('\n' :: rest) = [] :: rows := by rw [lines, ih]
    rw [lines_append_row hrow (fun he => absurd he hlast) hend, List.append_nil]
  | @returnLineFeed row rest rows hrow _ ih =>
    have hend : lines ('\r' :: '\n' :: rest) = [] :: rows := by rw [lines, ih]
    have hhead : ('\r' :: '\n' :: rest).head? ≠ some '\n' := by simp
    rw [lines_append_row hrow (fun _ => hhead) hend, List.append_nil]

end Splits

/-- The lines of a text split it. -/
theorem splits_lines (text : List Char) : Splits text (lines text) := by
  fun_induction lines text with
  | case1 => exact .nil
  | case2 rest ih =>
    show Splits ([] ++ '\n' :: rest) ([] :: lines rest)
    exact .lineFeed List.not_mem_nil (fun h => nomatch h) ih
  | case3 rest ih =>
    show Splits ([] ++ '\r' :: '\n' :: rest) ([] :: lines rest)
    exact .returnLineFeed List.not_mem_nil ih
  | case4 c rest hfeed hreturn hnone ih =>
    rw [hnone] at ih
    cases ih
    exact .last (List.cons_ne_nil c []) fun hm => hfeed (List.mem_singleton.1 hm).symm
  | case5 c rest hfeed hreturn line more hmore ih =>
    rw [hmore] at ih
    refine ih.cons hfeed fun hc hhead => ?_
    obtain ⟨text, rfl⟩ := List.head?_eq_some_iff.1 hhead
    exact hreturn text hc rfl

/-- **A text has just one splitting into lines.** -/
@[simp] theorem splits_iff {text : List Char} {rows : List (List Char)} :
    Splits text rows ↔ lines text = rows :=
  ⟨Splits.lines_eq, fun h => h ▸ splits_lines text⟩

/-- Behind a line feed a text may be cut without harm to its lines. -/
theorem lines_append {text : List Char} (hend : text = [] ∨ text.getLast? = some '\n')
    (rest : List Char) : lines (text ++ rest) = lines text ++ lines rest :=
  ((splits_lines text).append hend (splits_lines rest)).lines_eq

end UmlMarkup
