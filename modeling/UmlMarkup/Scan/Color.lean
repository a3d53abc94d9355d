import UmlMarkup.ScanState

/-!
# Reading a color literal

A color literal is a `#` and a run of ASCII letters and digits, possibly a
gradient of several such runs joined by `/`, `\`, `|` or `-`. While it is read a
frame of its own lies on the stack. `colorTurn?` is one turn of the reading: it
takes the next character if that still belongs to the literal, and otherwise
closes the innermost frame; there is no further turn once the innermost frame
is no color.

Every turn uses up a character or a frame, so the reading ends. A stack that
came from outside may hold color frames already, and those directly below are
closed with it.
-/

namespace UmlMarkup

/-- Whether `c`, with `rest` after it, continues a color literal. -/
def continuesColor (c : Char) (rest : List Char) : Bool :=
  c.isAlphanum || ['/', '\\', '|', '-'].contains c && rest.head?.any Char.isAlphanum

/-- One turn of reading a color literal, or none if no color is innermost. -/
def colorTurn? (s : ScanState) (text : List Char) : Option (ScanState × List Char) :=
  (s.close? .color).map fun outer =>
    match text with
    | c :: rest => if continuesColor c rest then (s, rest) else (outer, text)
    | [] => (outer, [])

/-- **What a turn does**: it reads a character that continues the literal, or it closes the
innermost frame. -/
theorem colorTurn?_cases {s t : ScanState} {text rest : List Char}
    (h : colorTurn? s text = some (t, rest)) :
    (t = s ∧ ∃ c, text = c :: rest ∧ continuesColor c rest = true)
      ∨ (s.stack = .color :: t.stack ∧ rest = text) := by
  obtain ⟨outer, ho, he⟩ := Option.map_eq_some_iff.1 h
  have hs := ScanState.close?_eq_some_iff.1 ho
  cases text with
  | nil =>
    cases he
    exact Or.inr ⟨hs, rfl⟩
  | cons c more =>
    dsimp only at he
    split at he
    · next hc =>
      cases he
      exact Or.inl ⟨rfl, c, rfl, hc⟩
    · cases he
      exact Or.inr ⟨hs, rfl⟩

/-- Every turn uses up a character or a frame. -/
theorem colorTurn?_decreases {s t : ScanState} {text rest : List Char}
    (h : colorTurn? s text = some (t, rest)) :
    rest.length ≤ text.length ∧
      rest.length + t.stack.length < text.length + s.stack.length := by
  rcases colorTurn?_cases h with ⟨rfl, c, rfl, -⟩ | ⟨hs, rfl⟩
  · exact ⟨Nat.le_succ _, by simp⟩
  · have hlength := congrArg List.length hs
    rw [List.length_cons] at hlength
    exact ⟨Nat.le_refl _, by omega⟩

/-- Reads the rest of a color literal: the state after it and the text that
remains. -/
def readColor (s : ScanState) (text : List Char) : ScanState × List Char :=
  match _h : colorTurn? s text with
  | none => (s, text)
  | some (t, rest) => readColor t rest
termination_by text.length + s.stack.length
decreasing_by exact (colorTurn?_decreases _h).2

/-- What a turn leaves is the end of the text. -/
theorem suffix_colorTurn? {s t : ScanState} {text rest : List Char}
    (h : colorTurn? s text = some (t, rest)) : rest <:+ text := by
  rcases colorTurn?_cases h with ⟨-, c, rfl, -⟩ | ⟨-, rfl⟩
  · exact List.suffix_cons c rest
  · exact List.suffix_rfl

/-- What reading a color leaves is the end of the text. -/
theorem suffix_readColor (s : ScanState) (text : List Char) : (readColor s text).2 <:+ text := by
  fun_induction readColor s text with
  | case1 s text h => exact List.suffix_rfl
  | case2 s text t rest h ih => exact ih.trans (suffix_colorTurn? h)

theorem length_readColor_le (s : ScanState) (text : List Char) :
    (readColor s text).2.length ≤ text.length :=
  (suffix_readColor s text).length_le

/-- **Reading a color closes the color frames on top of the stack** and touches
nothing below them. -/
@[simp] theorem stack_readColor (s : ScanState) (text : List Char) :
    (readColor s text).1.stack = s.stack.dropWhile (· == .color) := by
  fun_induction readColor s text with
  | case1 s text h =>
    have hc : s.close? .color = none := Option.map_eq_none_iff.1 h
    obtain ⟨stack⟩ := s
    cases stack with
    | nil => rfl
    | cons m below =>
      have hm : m ≠ .color := fun hm => by
        rw [hm] at hc
        cases hc
      simp [hm]
  | case2 s text t rest h ih =>
    rw [ih]
    rcases colorTurn?_cases h with ⟨rfl, -⟩ | ⟨hs, -⟩
    · rfl
    · rw [hs]
      rfl

/-- Entering a color and reading it leaves the state as it was. -/
@[simp] theorem readColor_enter {s : ScanState} (h : s.mode ≠ .color) (text : List Char) :
    (readColor (s.enter .color) text).1 = s := by
  have hs : (readColor (s.enter .color) text).1.stack = s.stack.dropWhile (· == .color) := by
    simp
  obtain ⟨stack⟩ := s
  refine congrArg ScanState.mk (hs.trans ?_)
  cases stack with
  | nil => rfl
  | cons m below => exact List.dropWhile_cons_of_neg (mt eq_of_beq (show m ≠ .color from h))

/-- A turn is followed by the turns from where it leads. -/
theorem readColor_of_turn {s t : ScanState} {text rest : List Char}
    (h : colorTurn? s text = some (t, rest)) : readColor s text = readColor t rest := by
  rw [readColor]
  split
  · next heq => rw [h] at heq; cases heq
  · next heq => rw [h] at heq; cases heq; rfl

/-- Where there is no turn to take nothing is read. -/
@[simp] theorem readColor_of_none {s : ScanState} {text : List Char}
    (h : colorTurn? s text = none) :
    readColor s text = (s, text) := by
  rw [readColor]
  split
  · rfl
  · next heq => rw [h] at heq; cases heq

/-- Where no color is innermost there is nothing to read. -/
@[simp] theorem readColor_of_mode_ne {s : ScanState} (h : s.mode ≠ .color) (text : List Char) :
    readColor s text = (s, text) := by
  refine readColor_of_none ?_
  simp [colorTurn?, h]

/-- **What every turn does alike in two texts**, the whole reading does. -/
theorem readColor_map {f : List Char → List Char}
    (hf : ∀ s text, colorTurn? s (f text) = (colorTurn? s text).map fun turn => (turn.1, f turn.2))
    (s : ScanState) (text : List Char) :
    readColor s (f text) = ((readColor s text).1, f (readColor s text).2) := by
  fun_induction readColor s text with
  | case1 s text h =>
    refine readColor_of_none ?_
    rw [hf, h, Option.map_none]
  | case2 s text t rest h ih =>
    rw [← ih]
    refine readColor_of_turn ?_
    rw [hf, h, Option.map_some]

/-- A color is read from the front: either the next character continues it, or the
color ends before that character. -/
theorem readColor_enter_cons {s : ScanState} (h : s.mode ≠ .color) (c : Char)
    (rest : List Char) :
    readColor (s.enter .color) (c :: rest)
      = if continuesColor c rest then readColor (s.enter .color) rest else (s, c :: rest) := by
  have hturn : colorTurn? (s.enter .color) (c :: rest)
      = some (if continuesColor c rest then (s.enter .color, rest) else (s, c :: rest)) := by
    simp [colorTurn?]
  by_cases hc : continuesColor c rest = true
  · rw [if_pos hc] at hturn
    rw [if_pos hc, readColor_of_turn hturn]
  · rw [if_neg hc] at hturn
    simp [hc, h, readColor_of_turn hturn]

/-- At the end of the line a color ends. -/
@[simp] theorem readColor_enter_nil {s : ScanState} (h : s.mode ≠ .color) :
    readColor (s.enter .color) [] = (s, []) := by
  have hturn : colorTurn? (s.enter .color) [] = some (s, []) := by
    simp [colorTurn?]
  simp [h, readColor_of_turn hturn]

end UmlMarkup
