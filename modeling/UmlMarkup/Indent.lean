import UmlMarkup.Dialect
import UmlMarkup.ScanState

/-!
# Indentation

An editor that starts a new line asks how far to indent it. The answer is the
number of open nesting constructs times the width of one level, given in 32-bit
columns and cut off at the largest of them. Whether there is an answer at all is
the dialect's policy: it may have no opinion, or one only inside a box or a
note, and then the editor keeps its own indentation.
-/

namespace UmlMarkup

/-- The largest width that is ever asked for. -/
def maxWidth : Nat := 4294967295

namespace ScanState

/-- The width of all open nesting constructs, `unit` columns each. -/
def width (s : ScanState) (unit : Nat) : Nat := min (s.depth * unit) maxWidth

/-- The same width, but only directly inside a box or a note. -/
def constructWidth? (s : ScanState) (unit : Nat) : Option Nat :=
  match s.mode with
  | .box | .note => some (s.width unit)
  | _ => none

end ScanState

/-- The width to indent the line after `state` by, if the dialect has an
opinion. -/
def Dialect.indent? (d : Dialect) (state : ScanState) (unit : Nat) : Option Nat :=
  match d.indentPolicy with
  | .none => none
  | .constructs => state.constructWidth? unit
  | .nesting => some (state.width unit)

end UmlMarkup
