import UmlMarkup.Dialect.Builtin
import UmlMarkup.Scan.Entry

/-!
# Scanning ends

A cursor is moved by two loops, one within the other. The outer one reads a token at each
turn until the line is over; the inner one reads a color and goes on while a color is
innermost. Nothing is asked of the dialect that they run with, which may have empty markers
and rules that match nothing, and nothing of the state that they start in, which may have been
saved elsewhere and hold color frames already. So it has to be said what drives them on.

A loop is given by its turn, and `EndsAfter` says after how many turns it ends, and where. It
ends after no more turns than there is of something that every turn uses up
(`EndsAfter.add_measure_le`). A token uses up characters of the line, at least one of them
(`Cursor.turn?_uses_up`). A turn of a color uses up a character or, where none goes on with the
color, a color frame at the top of the stack (`Cursor.colorTurn?_uses_up`); the frames of other
constructs stop it, so that it never gets to those below.
-/

namespace UmlMarkup

/-! ## Loops -/

/-- **The loop that takes one turn after the other ends**: after `k` turns from `a` it is at
`b`, where there is no further turn. -/
inductive EndsAfter {α : Type} (turn? : α → Option α) : Nat → α → α → Prop
  | stop {a : α} (h : turn? a = none) : EndsAfter turn? 0 a a
  | turn {a b c : α} {k : Nat} (h : turn? a = some b) (hrest : EndsAfter turn? k b c) :
    EndsAfter turn? (k + 1) a c

/-- **A loop takes no more turns than there is to use up**, if every turn uses up some of it. -/
theorem EndsAfter.add_measure_le {α : Type} {turn? : α → Option α} (measure : α → Nat)
    (hturn : ∀ {a b}, turn? a = some b → measure b < measure a) {k : Nat} {a b : α}
    (h : EndsAfter turn? k a b) : k + measure b ≤ measure a := by
  induction h with
  | stop h => exact Nat.le_of_eq (Nat.zero_add _)
  | turn h _ ih =>
    have hlt := hturn h
    omega

/-! ## The loop of a color -/

/-- The number of color frames on top of the stack, before any other frame. -/
def ScanState.colorsOnTop (s : ScanState) : Nat := (s.stack.takeWhile (· == .color)).length

namespace Cursor

/-- Every turn of a color uses up a character or a color frame on top of the stack. -/
theorem colorTurn?_uses_up {c next : Cursor} (h : c.colorTurn? = some next) :
    next.rest.length + next.state.colorsOnTop < c.rest.length + c.state.colorsOnTop := by
  rw [colorTurn?_eq] at h
  obtain ⟨⟨t, rest⟩, hturn, rfl⟩ := Option.map_eq_some_iff.1 h
  rw [rest_behind (suffix_colorTurn? hturn)]
  show rest.length + t.colorsOnTop < _
  rcases colorTurn?_cases hturn with ⟨rfl, x, hrest, -⟩ | ⟨hstack, rfl⟩
  · rw [hrest, List.length_cons]
    omega
  · have htop : c.state.colorsOnTop = t.colorsOnTop + 1 := by
      rw [ScanState.colorsOnTop, hstack]
      rfl
    omega

/-- **Reading a color is a loop that ends.** -/
theorem endsAfter_readColor (c : Cursor) : ∃ k, EndsAfter colorTurn? k c c.readColor := by
  fun_induction readColor c with
  | case1 c h => exact ⟨0, .stop h⟩
  | case2 c next h ih =>
    obtain ⟨k, hk⟩ := ih
    exact ⟨k + 1, .turn h hk⟩

/-! ## The loop of a line -/

/-- A cursor stands between two characters of the encoded line. -/
theorem isValid_pos (c : Cursor) :
    (⟨c.pos⟩ : String.Pos.Raw).IsValid (String.ofList c.line) := by
  refine String.Pos.Raw.isValid_iff_exists_append.2
    ⟨String.ofList (c.line.take c.column), String.ofList (c.line.drop c.column), ?_, ?_⟩
  · rw [← String.ofList_append, List.take_append_drop]
  · rw [String.rawEndPos, utf8ByteSize_ofList]
    exact congrArg String.Pos.Raw.mk c.pos_eq.symm

variable (d : Dialect)

/-- One turn of the scan of a line: it reads a token, unless the line is over. -/
def turn? (c : Cursor) : Option Cursor := if c.atEnd then none else some (c.scanToken d)

/-- Every token uses up characters. -/
theorem turn?_uses_up {c next : Cursor} (h : c.turn? d = some next) :
    next.rest.length < c.rest.length := by
  rw [turn?] at h
  split at h
  · cases h
  · next hend =>
    cases h
    exact length_rest_scanToken d (eq_false_of_ne_true hend)

/-- **What one turn does**: exactly one token is noted, over the columns that the cursor moves
on by. -/
theorem scanToken_spec {c : Cursor} (h : c.atEnd = false) :
    ∃ t, (c.scanToken d).tokens = c.tokens ++ [t]
      ∧ t.span = ⟨c.column, (c.scanToken d).column⟩ ∧ c.column < (c.scanToken d).column
      ∧ c.rest = t.text c.line ++ (c.scanToken d).rest ∧ (c.scanToken d).line = c.line := by
  have hfits := step_fits_rest d h
  rw [scanToken_eq (atEnd_eq_false_iff.1 h), tokens_read hfits, column_read hfits, rest_read,
    line_read]
  refine ⟨_, rfl, rfl, Nat.lt_add_of_pos_right hfits.1, ?_, rfl⟩
  rw [Token.text, List.drop_take, Nat.add_sub_cancel_left, ← c.rest_eq, List.take_append_drop]

/-- **Scanning a line is a loop that ends**, with the line. It takes a turn for each token. -/
theorem endsAfter_run (c : Cursor) :
    (c.run d).atEnd = true ∧ ∃ k, EndsAfter (turn? d) k c (c.run d)
      ∧ (c.run d).tokens.length = c.tokens.length + k := by
  fun_induction run d c with
  | case1 c h ih =>
    obtain ⟨hend, k, hk, hlength⟩ := ih
    obtain ⟨t, htokens, -⟩ := scanToken_spec d h
    have hturn : c.turn? d = some (c.scanToken d) := if_neg (by simp [h])
    refine ⟨hend, k + 1, .turn hturn hk, ?_⟩
    rw [hlength, htokens, List.length_append, List.length_singleton]
    omega
  | case2 c h =>
    have hend : c.atEnd = true := by simpa using h
    exact ⟨hend, 0, .stop (if_pos hend), rfl⟩

end Cursor

namespace Dialect

/-- **Scanning always progresses**, whatever the dialect and whatever is open. Before the end of
a line a turn notes exactly one token and moves the cursor over it, by at least one character, to
a place between two characters of the line. The loop of a color ends after at most as many turns
as there are characters left and color frames on top of the stack. And the loop of a line ends,
at the end of the line and with the tokens and the state that the scan of the line has, after a
turn for each token and so at most one for each character behind the indentation. -/
theorem scanning_progresses (d : Dialect) :
    (∀ c : Cursor, c.atEnd = false → ∃ t, (c.scanToken d).tokens = c.tokens ++ [t]
      ∧ t.span = ⟨c.column, (c.scanToken d).column⟩ ∧ c.column < (c.scanToken d).column
      ∧ c.rest = t.text c.line ++ (c.scanToken d).rest ∧ (c.scanToken d).line = c.line
      ∧ (c.scanToken d).column ≤ c.line.length
      ∧ (⟨(c.scanToken d).pos⟩ : String.Pos.Raw).IsValid (String.ofList c.line))
    ∧ (∀ c : Cursor, ∃ k ≤ c.rest.length + c.state.colorsOnTop,
      EndsAfter Cursor.colorTurn? k c c.readColor)
    ∧ ∀ (s : ScanState) (line : List Char), ∃ k ≤ (line.dropWhile isBlank).length, ∃ last,
      EndsAfter (Cursor.turn? d) k ((Cursor.start s line).advanceWhile isBlank) last
      ∧ last.atEnd = true ∧ last.tokens.length = k
      ∧ d.scanEntry s line = ⟨last.tokens, last.context.settle.state⟩
      ∧ d.scanEntry s line = (d.scanLine s line).entry := by
  refine ⟨fun c hc => ?_, fun c => ?_, fun s line => ?_⟩
  · obtain ⟨t, htokens, hspan, hlt, hrest, hline⟩ := Cursor.scanToken_spec d hc
    have hcolumn := (c.scanToken d).column_le
    have hvalid := (c.scanToken d).isValid_pos
    rw [hline] at hcolumn hvalid
    exact ⟨t, htokens, hspan, hlt, hrest, hline, hcolumn, hvalid⟩
  · obtain ⟨k, hk⟩ := c.endsAfter_readColor
    have hle := hk.add_measure_le (fun c => c.rest.length + c.state.colorsOnTop)
      Cursor.colorTurn?_uses_up
    exact ⟨k, Nat.le_trans (Nat.le_add_right k _) hle, hk⟩
  · obtain ⟨hend, k, hk, hlength⟩ :=
      Cursor.endsAfter_run d ((Cursor.start s line).advanceWhile isBlank)
    have hle := hk.add_measure_le (fun c => c.rest.length) (Cursor.turn?_uses_up d)
    have htokens : ((Cursor.start s line).advanceWhile isBlank).tokens = [] := by
      rw [Cursor.advanceWhile_eq, Cursor.tokens_skip]
      rfl
    rw [Cursor.rest_indent] at hle
    rw [htokens, List.length_nil, Nat.zero_add] at hlength
    exact ⟨k, Nat.le_trans (Nat.le_add_right k _) hle, _, hk, hend, hlength, rfl,
      d.scanEntry_eq s line⟩

/-- A dialect without markers, in which rules match nothing, and one opens a second color. -/
def hollow : Dialect :=
  { sequence with
    lineComment := [], blockOpen := [], blockClose := [], quote := ' ',
    rules :=
      [{ pattern := .literal [], kind := .atom, effect := .enter .normal },
        { pattern := .keywords [⟨[], []⟩], kind := .keyword, effect := .exit .color },
        { pattern := .color, kind := .atom, effect := .enter .color }] }

/-- With two colors open, over a frame of no construct: a color that opens another one, a
separator that joins nothing, a blank and a word. -/
theorem scanning_progresses_of_hollow :
    (Cursor.start ⟨[.color, .color, .normal]⟩ "#a/ b".toList).atEnd = false
    ∧ (∃ t, ((Cursor.start ⟨[.color, .color, .normal]⟩ "#a/ b".toList).scanToken hollow).tokens
        = [t] ∧ t.span.start = 0 ∧ t.span.start < t.span.stop)
    ∧ (∃ k ≤ 3, EndsAfter Cursor.colorTurn? k
        (Cursor.start ⟨[.color, .color, .normal]⟩ ['a'])
        (Cursor.start ⟨[.color, .color, .normal]⟩ ['a']).readColor)
    ∧ (Cursor.start ⟨[.color, .color, .normal]⟩ ['a']).readColor.state = ⟨[.normal]⟩
    ∧ (hollow.scanEntry ⟨[.color, .color, .normal]⟩ "#a/ b".toList).tokens.length ≤ 5 := by
  have hend : (Cursor.start ⟨[.color, .color, .normal]⟩ "#a/ b".toList).atEnd = false := by
    decide +kernel
  have h := scanning_progresses hollow
  obtain ⟨t, htokens, hspan, hlt, -⟩ := h.1 _ hend
  obtain ⟨k, hk, hcolor⟩ := h.2.1 (Cursor.start ⟨[.color, .color, .normal]⟩ ['a'])
  obtain ⟨n, hn, last, -, -, hlength, hentry, -⟩ :=
    h.2.2 ⟨[.color, .color, .normal]⟩ "#a/ b".toList
  refine ⟨hend, ⟨t, htokens, ?_, ?_⟩, ⟨k, hk, hcolor⟩, by decide +kernel, ?_⟩
  · rw [hspan]
    rfl
  · rw [hspan]
    exact hlt
  · rw [hentry]
    dsimp only
    rw [hlength]
    exact Nat.le_trans hn (by decide)

end Dialect

end UmlMarkup
