import UmlMarkup.Mode

/-!
# The state between two lines

What one line leaves to the next is the stack of constructs still open, and
nothing else. Keeping a stack rather than a count is what lets a construct that
closes restore exactly the one around it: a frame is taken off only by the
closer of its own kind, and only while it is innermost.

The stack is held innermost first, which is the order in which the scanner
works on it. `ScanState.frames` and `ScanState.ofFrames` speak of it outermost
first, the order of saved states and reports. Entering `normal` opens nothing;
a state built from frames takes them as they are, so that a `normal` frame can
still stand in a stack that came from outside.
-/

namespace UmlMarkup

/-- The constructs that are open, innermost first. -/
structure ScanState where
  stack : List Mode
  deriving DecidableEq, Repr, Inhabited

namespace ScanState

/-- The state at the start of a document: nothing is open. -/
def initial : ScanState := ⟨[]⟩

/-- The state with the given constructs open, outermost first. -/
def ofFrames (frames : List Mode) : ScanState := ⟨frames.reverse⟩

/-- The constructs that are open, outermost first. -/
def frames (s : ScanState) : List Mode := s.stack.reverse

/-- The innermost construct, `normal` when nothing is open. -/
def mode (s : ScanState) : Mode := s.stack.headD .normal

/-- Whether nothing is open. -/
def isNormal (s : ScanState) : Bool := s.stack.isEmpty

/-- The number of open constructs that count toward indentation. -/
def depth (s : ScanState) : Nat := s.stack.countP Mode.isNesting

/-- Opens a construct. Nothing is opened by `normal`. -/
def enter (s : ScanState) (m : Mode) : ScanState :=
  if m = .normal then s else ⟨m :: s.stack⟩

/-- Closes the construct `m`, which is possible only while it is innermost. -/
def close? (s : ScanState) (m : Mode) : Option ScanState :=
  match s.stack with
  | [] => none
  | top :: rest => if top = m then some ⟨rest⟩ else none

/-- Closes the construct `m` if it is innermost, and else changes nothing. -/
def exit (s : ScanState) (m : Mode) : ScanState := (s.close? m).getD s

/-- The names of the open constructs, outermost first: the form in which an
editor keeps a state beside a line. -/
def save (s : ScanState) : List String := s.frames.map Mode.name

/-- Reads a saved state back. There is none unless every entry is the name of a
mode. -/
def load? (names : List String) : Option ScanState :=
  (names.mapM Mode.ofName?).map ofFrames

@[simp] theorem ofFrames_frames (s : ScanState) : ofFrames s.frames = s := by
  simp [ScanState.frames, ofFrames]

/-- Closing takes off the innermost frame and requires it to be `m`. -/
@[simp] theorem close?_eq_some_iff {s t : ScanState} {m : Mode} :
    s.close? m = some t ↔ s.stack = m :: t.stack := by
  unfold close?
  split
  · next h => simp [h]
  · next top rest h =>
    rw [h]
    split
    · next hm => subst hm; cases t; simp
    · next hm => simp [hm]

theorem mode_of_stack {s : ScanState} {m : Mode} {below : List Mode}
    (h : s.stack = m :: below) : s.mode = m := by
  rw [mode, h]
  rfl

@[simp] theorem stack_enter {s : ScanState} {m : Mode} (h : m ≠ .normal) :
    (s.enter m).stack = m :: s.stack := by
  rw [enter, if_neg h]

/-- Closing what may not be innermost takes off one frame or none. -/
theorem exit_cases (s : ScanState) (m : Mode) :
    s.exit m = s ∨ s.stack = m :: (s.exit m).stack := by
  unfold exit
  cases h : s.close? m with
  | none => exact Or.inl rfl
  | some t => exact Or.inr (close?_eq_some_iff.1 h)

theorem exit_of_close? {s t : ScanState} {m : Mode} (h : s.close? m = some t) :
    s.exit m = t := by
  rw [exit, h, Option.getD_some]

@[simp] theorem exit_cons (m : Mode) (below : List Mode) :
    (⟨m :: below⟩ : ScanState).exit m = ⟨below⟩ :=
  exit_of_close? (close?_eq_some_iff.2 rfl)

@[simp] theorem exit_of_close?_eq_none {s : ScanState} {m : Mode} (h : s.close? m = none) :
    s.exit m = s := by
  rw [exit, h, Option.getD_none]

/-- Only what is innermost can be closed. -/
@[simp] theorem close?_eq_none_of_mode {s : ScanState} {m : Mode} (h : s.mode ≠ m) :
    s.close? m = none := by
  refine Option.eq_none_iff_forall_ne_some.2 fun t ht => h ?_
  exact mode_of_stack (close?_eq_some_iff.1 ht)

@[simp] theorem mode_enter {s : ScanState} {m : Mode} (h : m ≠ .normal) : (s.enter m).mode = m :=
  mode_of_stack (stack_enter h)

/-- What is innermost can be closed, if it is a construct. -/
theorem exists_close?_of_mode {s : ScanState} {m : Mode} (h : s.mode = m) (hm : m ≠ .normal) :
    ∃ t, s.close? m = some t := by
  obtain ⟨stack⟩ := s
  cases stack with
  | nil => exact absurd h.symm hm
  | cons top below => exact ⟨⟨below⟩, close?_eq_some_iff.2 (congrArg (· :: below) h)⟩

/-- A construct that was just entered can be closed, and closing it restores
the state before. -/
@[simp] theorem close?_enter {s : ScanState} {m : Mode} (h : m ≠ .normal) :
    (s.enter m).close? m = some s := by
  simp [enter, h, close?]

end ScanState

end UmlMarkup
