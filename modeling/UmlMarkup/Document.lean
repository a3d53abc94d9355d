import UmlMarkup.Event
import UmlMarkup.Scan.Entry

/-!
# Documents

The scan of a document is a list of **entries**, one for each line: its tokens
and the state it hands to the next line. An editor keeps that list beside the
text and brings it up to date after every edit.

`Document.update` is told the lines as they are now and which of them was
edited. As long as their number is unchanged it scans again from the edited line
on and stops after the first line whose entry comes out as it was before: from
there on, if no other line changed, every entry would come out as it was. The
entries after the stop are kept without a look at the lines, so edits that
were never announced stay unseen. When the number of lines has changed,
everything is scanned again; an index beyond the lines means nothing and changes
nothing.

A text that is read once, for a report or a page, is scanned by a loop of its
own (`Dialect.scanText`), which keeps the pieces of the lines. That both loops
agree is `Dialect.entriesFrom_eq`.
-/

namespace UmlMarkup

namespace Dialect

/-- Scans lines one after the other, the first from the given state. -/
def scanLines (d : Dialect) (state : ScanState) : List (List Char) → List ScannedLine
  | [] => []
  | line :: rest =>
    let l := d.scanLine state line
    l :: d.scanLines l.stateAfter rest

@[simp] theorem scanLines_nil (d : Dialect) (state : ScanState) : d.scanLines state [] = [] := rfl

@[simp] theorem scanLines_cons (d : Dialect) (state : ScanState) (line : List Char)
    (rest : List (List Char)) :
    d.scanLines state (line :: rest)
      = d.scanLine state line :: d.scanLines (d.scanLine state line).stateAfter rest := rfl

/-- Scans the lines of a text from the initial state. -/
def scanText (d : Dialect) (text : List Char) : List ScannedLine :=
  d.scanLines .initial (lines text)

/-- The entries of the given lines, the first of which starts in `state`. -/
def entriesFrom (d : Dialect) (state : ScanState) : List (List Char) → List Entry
  | [] => []
  | line :: rest =>
    let e := d.scanEntry state line
    e :: d.entriesFrom e.stateAfter rest

/-- **The entries of lines** are those of the scanned lines. -/
theorem entriesFrom_eq (d : Dialect) (state : ScanState) (lines : List (List Char)) :
    d.entriesFrom state lines = (d.scanLines state lines).map ScannedLine.entry := by
  induction lines generalizing state with
  | nil => rfl
  | cons line rest ih =>
    rw [entriesFrom, scanEntry_eq]
    exact congrArg _ (ih _)

end Dialect

/-- The cached scan of a document. -/
structure Document where
  entries : List Entry
  deriving DecidableEq, Repr

namespace Document

/-- The scan of the given lines. -/
def ofLines (d : Dialect) (lines : List (List Char)) : Document :=
  ⟨d.entriesFrom .initial lines⟩

/-- The scan of a text. -/
def ofText (d : Dialect) (text : List Char) : Document := ofLines d (lines text)

/-- The state in which the line at `index` starts: the state after the line
before, as far as there is one. -/
def stateBefore (doc : Document) (index : Nat) : ScanState :=
  match index with
  | 0 => .initial
  | n + 1 => (doc.entries[n]?.map Entry.stateAfter).getD .initial

/-- The state at the end of the document, if something is still open in it. -/
def unterminated? (doc : Document) : Option ScanState :=
  (doc.entries.getLast?.map Entry.stateAfter).filter fun s => !s.isNormal

/-- The new entries of the given lines, the first of which starts in `state`, up
to and including the first that equals its cached entry. -/
def rescan (d : Dialect) : ScanState → List Entry → List (List Char) → List Entry
  | state, cached :: older, line :: rest =>
    let e := d.scanEntry state line
    if e = cached then [e] else e :: rescan d e.stateAfter older rest
  | _, _, _ => []

/-- The entries that an update at `index` computes when the number of lines is
unchanged. -/
def freshEntries (doc : Document) (d : Dialect) (lines : List (List Char)) (index : Nat) :
    List Entry :=
  rescan d (doc.stateBefore index) (doc.entries.drop index) (lines.drop index)

/-- Brings the document up to date after the line at `index` was edited. -/
def update (doc : Document) (d : Dialect) (lines : List (List Char)) (index : Nat) : Document :=
  if lines.length ≤ index then doc
  else if doc.entries.length ≠ lines.length then ofLines d lines
  else
    let fresh := doc.freshEntries d lines index
    ⟨doc.entries.take index ++ fresh ++ doc.entries.drop (index + fresh.length)⟩

/-- The events of an update: one for a full scan, and otherwise one for every
line that was scanned again, the unchanged one that stopped it included. -/
def updateEvents (doc : Document) (d : Dialect) (lines : List (List Char)) (index : Nat) :
    List Event :=
  if lines.length ≤ index then []
  else if doc.entries.length ≠ lines.length then
    [.lineCountChanged doc.entries.length lines.length]
  else
    (doc.freshEntries d lines index).mapIdx fun k e =>
      .rescanned (index + k) e.stateAfter.mode

end Document

end UmlMarkup
