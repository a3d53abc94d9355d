import UmlMarkup.Proofs.Html.Escaping
import UmlMarkup.Proofs.Scan.Coverage
import UmlMarkup.Proofs.Scan.Threading
import UmlMarkup.Proofs.Text.Lines

/-!
# A page shows its text and nothing else

Whoever takes the tags out of the lines of a page and reads the entities has the lines
of the text again, character by character, whatever the dialect makes of them. And
whatever markup the text holds itself, it is text in the page: the tags there are those
of the styled tokens, each closed on its line before the next is opened, and what stands
between them is harmless (`page_lossless`).

The page is written from the columns of the tokens: what no token covers is copied as
it is, and every token is cut out of its line (`sliced?`). That this never reaches beyond
the line, and leaves nothing out, is the coverage of the line by its tokens; so the
pieces in which the scanner hands on a line make the same row of the page
(`sliced?_tokens`).

The lines of a page are found by the tags around them. Those tags come first where the
page puts them, since neither the title nor the lines hold a character with which
they could begin, and the tags of the page itself begin otherwise (`FreeOf`).
-/

namespace UmlMarkup

namespace Html

/-! ## Between two markers -/

/-- **No occurrence of the marker begins in the text**, whatever comes behind the text:
each of its ends differs from the marker before either is over. -/
def FreeOf (marker text : List Char) : Prop :=
  ∀ v ∈ text.tails, v ≠ [] → ¬ v <+: marker ∧ ¬ marker <+: v

instance (marker : List Char) : DecidablePred (FreeOf marker) := fun text =>
  inferInstanceAs (Decidable (∀ v ∈ text.tails, v ≠ [] → ¬ v <+: marker ∧ ¬ marker <+: v))

namespace FreeOf

variable {marker u v : List Char}

theorem not_prefix (h : FreeOf marker u) {w : List Char} (hw : w <:+ u) (hne : w ≠ [])
    (rest : List Char) : ¬ marker <+: w ++ rest := fun hpre => by
  obtain ⟨hshort, hlong⟩ := h w ((List.mem_tails w u).2 hw) hne
  exact (List.prefix_or_prefix_of_prefix hpre (List.prefix_append w rest)).elim hlong hshort

theorem append (hu : FreeOf marker u) (hv : FreeOf marker v) : FreeOf marker (u ++ v) := by
  intro w hw hne
  rw [List.mem_tails] at hw
  rcases List.suffix_or_suffix_of_suffix hw (List.suffix_append u v) with h | h
  · exact hv w ((List.mem_tails w v).2 h) hne
  · -- the end begins in the first text, and differs from the marker there already
    obtain ⟨front, rfl⟩ := h
    by_cases hfront : front = []
    · rw [hfront, List.nil_append] at hne ⊢
      exact hv v ((List.mem_tails v v).2 (List.suffix_refl v)) hne
    · obtain ⟨start, hstart⟩ := hw
      rw [← List.append_assoc] at hstart
      have hsuffix : front <:+ u := ⟨start, List.append_cancel_right hstart⟩
      exact ⟨fun hpre => (hu front ((List.mem_tails front u).2 hsuffix) hfront).1
        ((List.prefix_append front v).trans hpre), hu.not_prefix hsuffix hfront v⟩

/-- A marker does not begin in a text without its first character. -/
theorem of_notMem {c : Char} {more : List Char} (h : c ∉ u) : FreeOf (c :: more) u := by
  intro w hw hne
  obtain ⟨b, w, rfl⟩ := List.exists_cons_of_ne_nil hne
  have hb : b ∈ u := ((List.mem_tails _ u).1 hw).subset List.mem_cons_self
  refine ⟨fun hpre => ?_, fun hpre => ?_⟩
  · exact h ((List.cons_prefix_cons.1 hpre).1 ▸ hb)
  · exact h ((List.cons_prefix_cons.1 hpre).1.symm ▸ hb)

end FreeOf

/-- **What stands between two markers**: from the first occurrence of the one to the first
occurrence of the other behind it. -/
def enclosed? (opener closer text : List Char) : Option (List Char) :=
  (past? opener text).bind fun n =>
    (indexOf? closer (text.drop n)).map fun k => (text.drop n).take k

@[simp] theorem indexOf?_self_append (marker rest : List Char) :
    indexOf? marker (marker ++ rest) = some 0 := by
  obtain ⟨n, hn, hle⟩ := exists_indexOf?_le marker [] rest
  rwa [List.nil_append, Nat.eq_zero_of_le_zero hle] at hn

theorem enclosed?_append {opener closer before inner : List Char} (hne : opener ≠ [])
    (hbefore : FreeOf opener before) (hinner : FreeOf closer inner) (after : List Char) :
    enclosed? opener closer (before ++ (opener ++ (inner ++ (closer ++ after)))) = some inner := by
  have hpast : past? opener (before ++ (opener ++ (inner ++ (closer ++ after))))
      = some (before.length + opener.length) := by
    rw [past?_append fun w hw hne => hbefore.not_prefix hw hne _, past?,
      if_neg (by simpa using hne), indexOf?_self_append, Option.map_some, Option.map_some,
      Nat.zero_add]
  rw [enclosed?, hpast, Option.bind_some, ← List.drop_drop, List.drop_left, List.drop_left,
    indexOf?_append fun w hw hne => hinner.not_prefix hw hne _, indexOf?_self_append,
    Option.map_some, Option.map_some, Nat.add_zero, List.take_left]

/-! ## Tags -/

/-- The styles of tokens. -/
def styles : List String := ["comment", "string", "keyword", "def", "number", "atom", "operator"]

theorem mem_styles_of_style? {k : Kind} {style : String} (h : k.style? = some style) :
    style ∈ styles := by
  cases k <;> cases h <;> decide

/-- The tags in the lines of a page. -/
def tags : List (List Char) := spanClose :: styles.map spanOpen

/-- Deletes the tags of styled text. -/
def untag (text : List Char) : List Char := substitute (tags.map fun t => (t, [])) text

theorem unambiguous_tags : Unambiguous (tags.map fun t => (t, [])) := by decide +kernel

theorem head?_tags : ∀ t ∈ tags, t.head? = some '<' := by decide +kernel

theorem newline_notMem_tags : ∀ t ∈ tags, '\n' ∉ t := by decide +kernel

theorem spanOpen_mem_tags {style : String} (h : style ∈ styles) : spanOpen style ∈ tags :=
  List.mem_cons_of_mem _ (List.mem_map_of_mem h)

@[simp] theorem untag_nil : untag [] = [] := substitute_nil

@[simp] theorem untag_tag {t : List Char} (ht : t ∈ tags) (rest : List Char) :
    untag (t ++ rest) = untag rest :=
  substitute_entry unambiguous_tags (List.mem_map_of_mem (f := fun t => (t, [])) ht) rest

/-- Text without angle brackets stays. -/
@[simp] theorem untag_append {u : List Char} (hu : '<' ∉ u) (rest : List Char) :
    untag (u ++ rest) = u ++ untag rest := by
  refine substitute_append (fun e he => (unambiguous_tags e he).1) (fun c hc e he hhead => ?_) rest
  obtain ⟨t, ht, rfl⟩ := List.mem_map.1 he
  exact hu (Option.some.inj (hhead.symm.trans (head?_tags t ht)) ▸ hc)

theorem Harmless.lt_notMem {text : List Char} (h : Harmless text) : '<' ∉ text := fun hmem =>
  (h.plain '<' hmem).1 rfl

theorem lt_notMem_escape (text : List Char) : '<' ∉ escape text := (harmless_escape text).lt_notMem

theorem newline_notMem_escape {text : List Char} (h : '\n' ∉ text) : '\n' ∉ escape text := by
  intro hmem
  obtain ⟨c, hc, hin⟩ := List.mem_flatMap.1 hmem
  rcases escapeChar_cases c with hentity | ⟨hself, -⟩
  · exact (entities_shape _ hentity).2.2.2 hin
  · rw [hself, List.mem_singleton] at hin
    exact h (hin ▸ hc)

/-- **A line of the page**: harmless text, in which spans of harmless text stand side by
side, each closed before the next is opened. -/
inductive Marked : List Char → Prop
  | nil : Marked []
  | text {u rest : List Char} (hu : Harmless u) (h : Marked rest) : Marked (u ++ rest)
  | span {style : String} {u rest : List Char} (hstyle : style ∈ styles) (hu : Harmless u)
    (h : Marked rest) : Marked (spanOpen style ++ (u ++ (spanClose ++ rest)))

/-! ## Rows -/

/-- A line of the page without the line feed that ends it. -/
def row (l : ScannedLine) : List Char := escape l.indent ++ l.lexemes.flatMap lexeme

theorem line_eq_row (l : ScannedLine) : line l = row l ++ ['\n'] := rfl

theorem marked_lexemes (ls : List Lexeme) : Marked (ls.flatMap lexeme) := by
  induction ls with
  | nil => exact .nil
  | cons l ls ih =>
    rw [List.flatMap_cons, lexeme]
    split
    · next style hstyle =>
      rw [List.append_assoc, List.append_assoc]
      exact .span (mem_styles_of_style? hstyle) (harmless_escape l.text) ih
    · exact .text (harmless_escape l.text) ih

theorem marked_row (l : ScannedLine) : Marked (row l) :=
  .text (harmless_escape l.indent) (marked_lexemes l.lexemes)

/-- Without its tags a lexeme is its text. -/
@[simp] theorem untag_lexemes (ls : List Lexeme) (rest : List Char) :
    untag (ls.flatMap lexeme ++ rest) = escape (ls.flatMap Lexeme.text) ++ untag rest := by
  induction ls with
  | nil => rfl
  | cons l ls ih =>
    rw [List.flatMap_cons, List.flatMap_cons, escape_append, lexeme]
    split
    · next style hstyle =>
      rw [List.append_assoc, List.append_assoc, List.append_assoc,
        untag_tag (spanOpen_mem_tags (mem_styles_of_style? hstyle)),
        untag_append (lt_notMem_escape _), untag_tag List.mem_cons_self, ih, List.append_assoc]
    · simp [lt_notMem_escape, ih]

/-- **Without its tags a row is the text of its line.** -/
@[simp] theorem untag_row (l : ScannedLine) (rest : List Char) :
    untag (row l ++ rest) = escape l.text ++ untag rest := by
  simp [row, untag_append (lt_notMem_escape _), ScannedLine.text]

@[simp] theorem decode_untag_row (l : ScannedLine) : decode (untag (row l)) = l.text := by
  have h := untag_row l []
  rw [List.append_nil, untag_nil, List.append_nil] at h
  simp [h]

/-- A line holds no line feed, and its row none either. -/
theorem newline_notMem_row {l : ScannedLine} (h : '\n' ∉ l.text) : '\n' ∉ row l := by
  rw [ScannedLine.text, List.mem_append, not_or] at h
  rw [row, List.mem_append, not_or]
  refine ⟨newline_notMem_escape h.1, fun hmem => ?_⟩
  obtain ⟨m, hm, hin⟩ := List.mem_flatMap.1 hmem
  have htext : '\n' ∉ escape m.text :=
    newline_notMem_escape fun hc => h.2 (List.mem_flatMap.2 ⟨m, hm, hc⟩)
  rw [lexeme] at hin
  split at hin
  · next style hstyle =>
    have hopen := newline_notMem_tags _ (spanOpen_mem_tags (mem_styles_of_style? hstyle))
    have hclose := newline_notMem_tags spanClose List.mem_cons_self
    simp only [List.mem_append, hopen, htext, hclose, or_self] at hin
  · exact htext hin

/-! ## Rows cut out of their lines -/

/-- The characters of a line from one column to another, which must lie in this order
within the line. -/
def cut? (line : List Char) (start stop : Nat) : Option (List Char) :=
  if start ≤ stop ∧ stop ≤ line.length then some ((line.take stop).drop start) else none

/-- What stands between two columns, if the first comes first. -/
def gap? (line : List Char) (start stop : Nat) : Option (List Char) :=
  if start < stop then cut? line start stop else some []

/-- **The row of a line whose tokens are told by their columns**, from `column` on: what no
token covers as it is, and every token, in a span of its style, cut out of the line. -/
def sliced? (line : List Char) : Nat → List Token → Option (List Char)
  | column, [] => (gap? line column line.length).map escape
  | column, t :: ts => do
    let gap ← gap? line column t.span.start
    let text ← cut? line t.span.start t.span.stop
    let rest ← sliced? line t.span.stop ts
    return escape gap ++ (lexeme ⟨t.kind, text⟩ ++ rest)

@[simp] theorem cut?_eq_some {line : List Char} {start stop : Nat} (h : start ≤ stop)
    (hstop : stop ≤ line.length) : cut? line start stop = some ((line.take stop).drop start) :=
  if_pos ⟨h, hstop⟩

@[simp] theorem gap?_self (line : List Char) (column : Nat) : gap? line column column = some [] :=
  if_neg (Nat.lt_irrefl column)

@[simp] theorem gap?_zero {line : List Char} {stop : Nat} (h : stop ≤ line.length) :
    gap? line 0 stop = some (line.take stop) := by
  unfold gap?
  split
  · exact cut?_eq_some (Nat.zero_le stop) h
  · next hstop => rw [Nat.eq_zero_of_not_pos hstop, List.take_zero]

/-- Tokens that tile the rest of the line are all that is written of it. -/
theorem sliced?_of_tiles {line : List Char} {start : Nat} {ts : List Token}
    (h : Tiles start line.length ts) :
    sliced? line start ts = some (ts.flatMap fun t => lexeme ⟨t.kind, t.text line⟩) := by
  induction ts generalizing start with
  | nil =>
    obtain rfl : start = line.length := h
    rw [sliced?, gap?_self]
    rfl
  | cons t ts ih =>
    obtain ⟨rfl, hlt, hrest⟩ := h
    rw [sliced?, gap?_self, cut?_eq_some (Nat.le_of_lt hlt) hrest.start_le_stop, ih hrest]
    rfl

/-- What stands before the first token is written as it is. -/
theorem sliced?_zero {line : List Char} {start : Nat} {ts : List Token}
    (h : Tiles start line.length ts) :
    sliced? line 0 ts
      = some (escape (line.take start) ++ ts.flatMap fun t => lexeme ⟨t.kind, t.text line⟩) := by
  cases ts with
  | nil =>
    obtain rfl : start = line.length := h
    simp [sliced?]
  | cons t ts =>
    obtain ⟨rfl, hlt, hrest⟩ := h
    have hstop := hrest.start_le_stop
    rw [sliced?, gap?_zero (Nat.le_trans (Nat.le_of_lt hlt) hstop),
      cut?_eq_some (Nat.le_of_lt hlt) hstop, sliced?_of_tiles hrest]
    rfl

/-- **The row of a scanned line is cut out of it by the columns of its tokens.** -/
@[simp] theorem sliced?_tokens (d : Dialect) (state : ScanState) (text : List Char) :
    sliced? text 0 (d.scanLine state text).tokens = some (row (d.scanLine state text)) := by
  have hindent : text.take (text.takeWhile isBlank).length = (d.scanLine state text).indent :=
    (List.prefix_iff_eq_take.1 (List.takeWhile_prefix isBlank)).symm
  rw [sliced?_zero (d.tiles_tokens state text), hindent, row, ← d.map_mk_tokens state text,
    List.flatMap_map]

/-! ## Pages -/

/-- Each row is cut out of its line, and holds the text of it. -/
theorem map_sliced?_scanLines (d : Dialect) (state : ScanState) (lines : List (List Char)) :
    (lines.zip (d.scanLines state lines)).map (fun p => sliced? p.1 0 p.2.tokens)
      = ((d.scanLines state lines).map row).map some := by
  induction lines generalizing state with
  | nil => rfl
  | cons line rest ih =>
    simp [ih]

/-- Without their tags the rows are the texts of their lines. -/
@[simp] theorem untag_rows (ls : List ScannedLine) :
    untag ((ls.map row).flatMap (· ++ ['\n']))
      = escape ((ls.map ScannedLine.text).flatMap (· ++ ['\n'])) := by
  induction ls with
  | nil => exact untag_nil
  | cons l ls ih =>
    rw [List.map_cons, List.flatMap_cons, List.map_cons, List.flatMap_cons, List.append_assoc,
      untag_row, untag_append (by decide), ih, escape_append, escape_append, List.append_assoc]
    rfl

theorem body_eq_rows (d : Dialect) (text : List Char) :
    body d text = ((d.scanText text).map row).flatMap (· ++ ['\n']) := by
  rw [body, List.flatMap_map]
  rfl

/-- The tags around the title. -/
def titleOpen : List Char := "<title>".toList

def titleClose : List Char := "</title>".toList

/-- The tags around the lines. -/
def linesOpen : List Char := "<pre class=\"umlscan\">".toList

def linesClose : List Char := "</pre>".toList

/-- What comes before the title. -/
def prologue : List Char :=
  "<!DOCTYPE html>\n<html>\n<head>\n  <meta charset=\"UTF-8\">\n  ".toList

/-- What stands between the title and the lines. -/
def interlude : List Char :=
  "\n  <style>\n".toList ++ stylesheet.toList ++ "  </style>\n</head>\n<body>\n".toList

theorem head_eq (title : List Char) :
    head title
      = prologue ++ (titleOpen ++ (escape title ++ (titleClose ++ (interlude ++ linesOpen)))) := by
  have hassoc : ∀ a b t c x s y e : List Char,
      a ++ b ++ t ++ (c ++ x) ++ s ++ (y ++ e)
        = a ++ (b ++ (t ++ (c ++ (x ++ s ++ y ++ e)))) := by
    intros
    simp only [List.append_assoc]
  -- the three fixed texts, each taken apart at the tag in it
  have hjoin : ∀ {start middle last : List Char}, start = prologue ++ titleOpen →
      middle = titleClose ++ "\n  <style>\n".toList →
      last = "  </style>\n</head>\n<body>\n".toList ++ linesOpen →
      start ++ escape title ++ middle ++ stylesheet.toList ++ last = prologue
        ++ (titleOpen ++ (escape title ++ (titleClose ++ (interlude ++ linesOpen)))) := by
    rintro _ _ _ rfl rfl rfl
    exact hassoc ..
  exact hjoin (by decide +kernel) (by decide +kernel) (by decide +kernel)

theorem foot_eq : foot = linesClose ++ "\n</body>\n</html>\n".toList := by decide +kernel

/-- A page, with the tags around its title and its lines. -/
theorem page_eq (d : Dialect) (title text : List Char) :
    page d title text
      = prologue ++ (titleOpen ++ (escape title ++ (titleClose ++ (interlude ++ (linesOpen
          ++ (body d text ++ (linesClose ++ "\n</body>\n</html>\n".toList))))))) := by
  rw [page, head_eq, foot_eq]
  simp only [List.append_assoc]

theorem lt_notMem_stylesheet : '<' ∉ stylesheet.toList := by
  have h : ∀ {u v : String}, '<' ∉ u.toList → '<' ∉ v.toList → '<' ∉ (u ++ v).toList := by
    intro u v hu hv
    rw [String.toList_append]
    exact List.not_mem_append hu hv
  refine h (h (h (h (h (h ?_ ?_) ?_) ?_) ?_) ?_) ?_ <;> decide +kernel

/-- Neither the tag of the title nor the one of the lines begins in what the page puts
before it. -/
theorem freeOf_fixed : FreeOf titleOpen prologue ∧ FreeOf linesOpen (prologue ++ titleOpen)
    ∧ FreeOf linesOpen (titleClose ++ interlude) := by
  have hclose : FreeOf linesOpen titleClose := by decide +kernel
  have hstart : FreeOf linesOpen "\n  <style>\n".toList := by decide +kernel
  have hend : FreeOf linesOpen "  </style>\n</head>\n<body>\n".toList := by decide +kernel
  exact ⟨by decide +kernel, by decide +kernel,
    hclose.append ((hstart.append (.of_notMem lt_notMem_stylesheet)).append hend)⟩

/-- No tag begins in text of the diagram. -/
theorem freeOf_escape (more text : List Char) : FreeOf ('<' :: more) (escape text) :=
  .of_notMem (lt_notMem_escape text)

theorem freeOf_tags : ∀ t ∈ tags, FreeOf linesClose t := by decide +kernel

/-- The tag behind the lines does not begin in a line. -/
theorem freeOf_marked {text : List Char} (h : Marked text) : FreeOf linesClose text := by
  have hharmless : ∀ {u : List Char}, Harmless u → FreeOf linesClose u :=
    fun hu => .of_notMem hu.lt_notMem
  induction h with
  | nil => exact hharmless harmless_nil
  | text hu _ ih => exact (hharmless hu).append ih
  | span hstyle hu _ ih =>
    exact (freeOf_tags _ (spanOpen_mem_tags hstyle)).append
      ((hharmless hu).append ((freeOf_tags _ List.mem_cons_self).append ih))

theorem freeOf_body (d : Dialect) (text : List Char) : FreeOf linesClose (body d text) := by
  rw [body]
  induction d.scanText text with
  | nil => exact freeOf_marked .nil
  | cons l ls ih =>
    rw [List.flatMap_cons, line_eq_row]
    have hfeed : FreeOf linesClose ['\n'] := by decide +kernel
    exact ((freeOf_marked (marked_row l)).append hfeed).append ih

@[simp] theorem enclosed?_title (d : Dialect) (title text : List Char) :
    enclosed? titleOpen titleClose (page d title text) = some (escape title) := by
  rw [page_eq]
  exact enclosed?_append (by decide) freeOf_fixed.1 (freeOf_escape _ title) _

@[simp] theorem enclosed?_lines (d : Dialect) (title text : List Char) :
    enclosed? linesOpen linesClose (page d title text) = some (body d text) := by
  obtain ⟨-, hstart, hend⟩ := freeOf_fixed
  have hbefore := hstart.append ((freeOf_escape _ title).append hend)
  have h := enclosed?_append (by decide) hbefore (freeOf_body d text) "\n</body>\n</html>\n".toList
  rw [page_eq, ← h]
  simp only [List.append_assoc]

/-- **A page shows its text and nothing else**, whatever the text holds and whatever the
dialect makes of it. Between the tags of the lines stand rows, each with a line feed
behind it and cut out of its line by the columns of the tokens. A row is marked text on
one line, and reads as its line without the tags. The title is harmless and reads as it
was given. -/
theorem page_lossless (d : Dialect) (title text : List Char) :
    ∃ rows : List (List Char),
      enclosed? linesOpen linesClose (page d title text) = some (rows.flatMap (· ++ ['\n']))
      ∧ ((lines text).zip (d.scanText text)).map (fun p => sliced? p.1 0 p.2.tokens)
        = rows.map some
      ∧ (∀ row ∈ rows, Marked row ∧ '\n' ∉ row)
      ∧ rows.map (fun row => decode (untag row)) = lines text
      ∧ decode (untag (rows.flatMap (· ++ ['\n']))) = (lines text).flatMap (· ++ ['\n'])
      ∧ enclosed? titleOpen titleClose (page d title text) = some (escape title)
      ∧ Harmless (escape title) ∧ decode (escape title) = title := by
  have htexts : (d.scanText text).map ScannedLine.text = lines text :=
    d.map_text_scanLines .initial (lines text)
  refine ⟨(d.scanText text).map row, ?_, map_sliced?_scanLines d .initial (lines text), ?_, ?_, ?_,
    enclosed?_title d title text, harmless_escape title, decode_escape title⟩
  · simp [body_eq_rows]
  · refine List.forall_mem_map.2 fun l hl => ⟨marked_row l, newline_notMem_row ?_⟩
    exact (splits_lines text).newline_notMem (htexts ▸ List.mem_map_of_mem hl)
  · rw [List.map_map, ← htexts]
    exact List.map_congr_left fun l _ => decode_untag_row l
  · simp [htexts]

end Html

end UmlMarkup
