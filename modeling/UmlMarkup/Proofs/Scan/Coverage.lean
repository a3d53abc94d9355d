import Mathlib.Data.List.Chain
import Mathlib.Data.List.TakeWhile
import UmlMarkup.Scan.Entry

/-!
# The tokens cover the line

No character of a line goes missing and none is counted twice. Past its
indentation a line is cut into tokens that stand side by side: the first starts
where the indentation ends, each next one where the one before stops, and the
last stops at the end of the line.

Two things make it so. A step reads at least one character and never more than
are left, whatever the dialect and whatever is open, so no lexeme is empty
(`text_ne_nil_of_mem_scanRest`) and none reaches too far. And the columns of the
tokens are laid out from the lengths of the lexemes, so the columns tile what
the lexemes spell (`tiles_layout`). The cursor, which counts columns and bytes as
it moves, notes the same tokens (`scanEntry_eq`).
-/

namespace UmlMarkup

/-! ## Tilings -/

/-- **The tokens tile the columns from `start` to `stop`**: none is empty, the
first starts at `start`, each next one where the one before stops, and the last
stops at `stop`. -/
def Tiles : Nat → Nat → List Token → Prop
  | start, stop, [] => start = stop
  | start, stop, t :: rest =>
    t.span.start = start ∧ start < t.span.stop ∧ Tiles t.span.stop stop rest

namespace Tiles

variable {start stop : Nat} {t : Token} {ts : List Token}

theorem start_le_stop (h : Tiles start stop ts) : start ≤ stop := by
  induction ts generalizing start with
  | nil => exact Nat.le_of_eq h
  | cons t rest ih => exact Nat.le_trans (Nat.le_of_lt h.2.1) (ih h.2.2)

/-- Only an empty range is tiled by nothing. -/
theorem eq_nil_iff (h : Tiles start stop ts) : ts = [] ↔ start = stop := by
  cases ts with
  | nil => exact iff_of_true rfl h
  | cons t rest =>
    have hlt : start < stop := Nat.lt_of_lt_of_le h.2.1 (start_le_stop h.2.2)
    exact iff_of_false (List.cons_ne_nil t rest) (Nat.ne_of_lt hlt)

theorem span_nonempty (h : Tiles start stop ts) (ht : t ∈ ts) :
    t.span.start < t.span.stop := by
  induction ts generalizing start with
  | nil => cases ht
  | cons u rest ih =>
    rcases List.mem_cons.1 ht with rfl | ht
    · exact h.1 ▸ h.2.1
    · exact ih h.2.2 ht

theorem start_of_head? (h : Tiles start stop ts) (ht : ts.head? = some t) :
    t.span.start = start := by
  cases ts with
  | nil => cases ht
  | cons u rest =>
    cases ht
    exact h.1

theorem stop_of_getLast? (h : Tiles start stop ts) (ht : ts.getLast? = some t) :
    t.span.stop = stop := by
  induction ts generalizing start with
  | nil => cases ht
  | cons u rest ih =>
    cases rest with
    | nil =>
      cases ht
      exact h.2.2
    | cons v rest =>
      rw [List.getLast?_cons_cons] at ht
      exact ih h.2.2 ht

theorem isChain (h : Tiles start stop ts) :
    ts.IsChain fun t u => u.span.start = t.span.stop := by
  induction ts generalizing start with
  | nil => exact .nil
  | cons t rest ih =>
    cases rest with
    | nil => exact .singleton t
    | cons u rest => exact .cons_cons h.2.2.1 (ih h.2.2)

end Tiles

/-- The layout of lexemes that are not empty tiles the columns that they fill. -/
theorem tiles_layout (column : Nat) {ls : List Lexeme} (h : ∀ l ∈ ls, l.text ≠ []) :
    Tiles column (column + (ls.flatMap Lexeme.text).length) (layout column ls) := by
  induction ls generalizing column with
  | nil => rfl
  | cons l rest ih =>
    have hl : 0 < l.text.length := List.length_pos_iff.2 (h l List.mem_cons_self)
    refine ⟨rfl, Nat.lt_add_of_pos_right hl, ?_⟩
    rw [List.flatMap_cons, List.length_append, ← Nat.add_assoc]
    exact ih _ fun m hm => h m (List.mem_cons_of_mem l hm)

/-- A line is its indentation and what follows it. -/
@[simp] theorem length_indent_add (line : List Char) :
    (line.takeWhile isBlank).length + (line.dropWhile isBlank).length = line.length := by
  rw [← List.length_append, List.takeWhile_append_dropWhile]

namespace Dialect

/-- No lexeme is empty. -/
theorem text_ne_nil_of_mem_scanRest (d : Dialect) {ctx : Context} {rest : List Char}
    {l : Lexeme} (hl : l ∈ (d.scanRest ctx rest).1) : l.text ≠ [] := by
  fun_induction scanRest d ctx rest with
  | case1 ctx => cases hl
  | case2 ctx rest h s lexemes last heq ih =>
    rcases List.mem_cons.1 hl with rfl | hl
    · have hs : Fits s.length rest := step_fits h
      rw [← List.length_pos_iff, List.length_take, Nat.min_eq_left hs.2]
      exact hs.1
    · rw [heq] at ih
      exact ih hl

variable (d : Dialect) (state : ScanState) (line : List Char)

/-- The lexemes of a line spell it, its indentation apart. -/
@[simp] theorem flatMap_text_lexemes :
    (d.scanLine state line).lexemes.flatMap Lexeme.text = line.dropWhile isBlank :=
  flatMap_text_scanRest d _ _

/-- **The tokens tile the line** from its indentation to its end. -/
theorem tiles_tokens :
    Tiles (line.takeWhile isBlank).length line.length (d.scanLine state line).tokens := by
  rw [← length_indent_add line, ← flatMap_text_lexemes d state line]
  exact tiles_layout _ fun l hl => d.text_ne_nil_of_mem_scanRest hl

/-- Each token covers the text of its lexeme. -/
@[simp] theorem map_text_tokens :
    (d.scanLine state line).tokens.map (·.text line)
      = (d.scanLine state line).lexemes.map Lexeme.text := by
  have h := map_text_layout (line.takeWhile isBlank) (d.scanLine state line).lexemes []
  rw [flatMap_text_lexemes, List.append_nil, List.takeWhile_append_dropWhile] at h
  exact h

/-- Tokens are told from lexemes by their kinds and their texts. -/
theorem map_mk_eq_of_map_eq {ts : List Token} {ls : List Lexeme} {text : Token → List Char}
    (hkind : ts.map Token.kind = ls.map Lexeme.kind) (htext : ts.map text = ls.map Lexeme.text) :
    ts.map (fun t => Lexeme.mk t.kind (text t)) = ls := by
  induction ts generalizing ls with
  | nil => exact (List.map_eq_nil_iff.1 hkind.symm).symm
  | cons t ts ih =>
    cases ls with
    | nil => cases hkind
    | cons l ls =>
      obtain ⟨hk, hkind⟩ := List.cons.inj hkind
      obtain ⟨ht, htext⟩ := List.cons.inj htext
      rw [List.map_cons, ih hkind htext, hk, ht]

/-- The tokens of a line, with the texts they cover, are its lexemes. -/
@[simp] theorem map_mk_tokens :
    (d.scanLine state line).tokens.map (fun t => Lexeme.mk t.kind (t.text line))
      = (d.scanLine state line).lexemes :=
  map_mk_eq_of_map_eq (map_kind_layout _ _) (map_text_tokens d state line)

/-- **Coverage.** Whatever the dialect and whatever is open, the tokens that the cursor notes of
a line are not empty and stand side by side from its indentation to its end, there are none
exactly if the line is blank, and their texts are the line without its indentation. They are the
tokens laid out from the pieces of the line. -/
theorem tokens_cover_line :
    (∀ t ∈ (d.scanEntry state line).tokens, t.span.start < t.span.stop)
    ∧ (∀ t, (d.scanEntry state line).tokens.head? = some t →
        t.span.start = (line.takeWhile isBlank).length)
    ∧ (d.scanEntry state line).tokens.IsChain (fun t u => u.span.start = t.span.stop)
    ∧ (∀ t, (d.scanEntry state line).tokens.getLast? = some t →
        t.span.stop = line.length)
    ∧ ((d.scanEntry state line).tokens = [] ↔ ∀ c ∈ line, isBlank c)
    ∧ (d.scanEntry state line).tokens.flatMap (·.text line) = line.dropWhile isBlank
    ∧ d.scanEntry state line = (d.scanLine state line).entry := by
  have h : Tiles (line.takeWhile isBlank).length line.length (d.scanEntry state line).tokens := by
    rw [scanEntry_eq]
    exact tiles_tokens d state line
  refine ⟨fun t => h.span_nonempty, fun t => h.start_of_head?, h.isChain,
    fun t => h.stop_of_getLast?, ?_, ?_, d.scanEntry_eq state line⟩
  · -- without a token the indentation is all there is
    have hlen := length_indent_add line
    rw [h.eq_nil_iff, ← List.dropWhile_eq_nil_iff, ← List.length_eq_zero_iff]
    omega
  · rw [scanEntry_eq, ScannedLine.entry, List.flatMap_def, map_text_tokens, ← List.flatMap_def,
      flatMap_text_lexemes]

end Dialect

end UmlMarkup
