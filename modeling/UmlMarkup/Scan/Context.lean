import UmlMarkup.ScanState

/-!
# The context of a position in a line

While a line is scanned more is known than the open constructs that it will
hand on. A note may have been opened on this very line, and its **header** –
what stands between the keyword and the colon – decides whether the note has a
body on the lines below: a colon ends the note at once, with its text on the
rest of the line, and a header that held a complete string makes it a note of
one line too, `note "text" as N`. Besides, the rest of a line can be free text,
and a construct keyword opens something only as the first token of its line.

All of this ends with the line. `Context.settle` is what happens to a note with
a quoted header then; the same happens just before a comment or a string opens
that will reach past the end of the line, so that such a literal never stands
on top of a note that is already over.
-/

namespace UmlMarkup

/-- What is known of the header of a note opened on this line. -/
inductive NoteHeader where
  /-- No header is being read. -/
  | absent
  /-- A header is being read. -/
  | plain
  /-- A header is being read and held a complete string. -/
  | quoted
  deriving DecidableEq, Repr

/-- What is known at a position inside a line. -/
structure Context where
  state : ScanState
  header : NoteHeader := .absent
  /-- The rest of the line is plain text. -/
  freeText : Bool := false
  /-- No token stands before this position. -/
  atStart : Bool := true
  deriving DecidableEq, Repr

namespace Context

/-- Whether a note header is being read. -/
def inHeader (c : Context) : Bool := c.header != .absent

/-- Opens a construct. A note starts with its header. -/
def enter (c : Context) (m : Mode) : Context :=
  { c with
    state := c.state.enter m
    header := if m = .note then .plain else c.header }

/-- Closes the construct `m` if it is innermost. -/
def exit (c : Context) (m : Mode) : Context := { c with state := c.state.exit m }

/-- A complete string was read. -/
def markQuoted (c : Context) : Context :=
  { c with header := if c.inHeader then .quoted else .absent }

/-- Ends the note whose header held a complete string. -/
def settle (c : Context) : Context :=
  if c.header = .quoted then { c.exit .note with header := .absent } else c

/-- Leaves the header of a note that its colon closes: what follows is the text
of the note. -/
def endHeader (c : Context) : Context :=
  { c.exit .note with header := .absent, freeText := true }

section

variable {c : Context} {m : Mode}

@[simp] theorem header_enter : (c.enter m).header = if m = .note then .plain else c.header := rfl

/-- Only a note starts with a header. -/
@[simp] theorem inHeader_enter_of_ne (h : m ≠ .note) : (c.enter m).inHeader = c.inHeader := by
  simp [inHeader, h]

@[simp] theorem inHeader_of_absent (h : c.header = .absent) : c.inHeader = false := by
  rw [inHeader, h]
  rfl

/-- Where no header is read there is none to leave. -/
@[simp] theorem settle_of_absent (h : c.header = .absent) : c.settle = c := by
  rw [settle, h, if_neg NoteHeader.noConfusion]

@[simp] theorem markQuoted_of_absent (h : c.header = .absent) : c.markQuoted = c := by
  obtain ⟨state, header, freeText, atStart⟩ := c
  cases h
  rfl

end

/-- A complete string is no reason to leave a header, or to enter one. -/
@[simp] theorem inHeader_markQuoted (c : Context) : c.markQuoted.inHeader = c.inHeader := by
  unfold markQuoted
  cases h : c.inHeader <;> rfl

/-- Settling a note takes it off the stack or does nothing. -/
theorem settle_cases (c : Context) :
    c.settle.state = c.state ∨ c.settle.state = c.state.exit .note := by
  unfold settle
  split
  · exact Or.inr rfl
  · exact Or.inl rfl

end Context

end UmlMarkup
