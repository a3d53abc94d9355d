import UmlMarkup.Indent

/-!
# What is left open

A diagram should close what it opens. `Report.unterminated` words what is wrong
with one that does not: the innermost construct left open, and how many there
are in all. While the diagram is still being read, `Report.stateRow` tells the
same of a line, with the indentation that an editor would give to the next one.
-/

namespace UmlMarkup

namespace Report

/-- What a construct is called in a message. -/
def constructName : Mode → String
  | .normal => "nothing"
  | .blockComment => "block comment"
  | .string => "string"
  | .note => "note"
  | .box => "box"
  | .group => "group"
  | .color => "color literal"

/-- The message about the constructs that a text leaves open. -/
def unterminated (s : ScanState) : String :=
  "unterminated " ++ constructName s.mode ++ " at end of file (open constructs: "
    ++ toString s.frames.length ++ ")"

/-- The row of the state after a line, with the indentation if there is one. -/
def stateRow (d : Dialect) (unit : Nat) (s : ScanState) : String :=
  if s.isNormal then ""
  else
    "     -> " ++ s.mode.name ++ " depth " ++ toString s.depth
      ++ (match d.indent? s unit with
          | some width => " indent " ++ toString width
          | none => "")
      ++ "\n"

end Report

end UmlMarkup
