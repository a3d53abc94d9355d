/-!
# Scan modes

A line of a diagram is read differently inside a comment, a string or a note
than outside. A `Mode` names the construct a position is inside of. Comments,
notes, boxes and groups *nest*: they count toward the indentation of what
follows. A string or a color does not.

The names of the modes are the ones in which a saved state, a token report and
a log speak of them.
-/

namespace UmlMarkup

/-- The construct a position of the diagram is inside of. -/
inductive Mode where
  /-- No construct at all. -/
  | normal
  | blockComment
  | string
  | note
  | box
  | group
  /-- A color literal. It is over before its line is. -/
  | color
  deriving DecidableEq, Repr, Inhabited

namespace Mode

/-- Whether the construct counts toward indentation. -/
def isNesting : Mode → Bool
  | blockComment | note | box | group => true
  | normal | string | color => false

/-- The name of a mode in saved states and reports. -/
def name : Mode → String
  | normal => "Normal"
  | blockComment => "InBlockComment"
  | string => "InString"
  | note => "InNote"
  | box => "InBox"
  | group => "InGroup"
  | color => "InColor"

/-- Every mode. -/
def all : List Mode := [normal, blockComment, string, note, box, group, color]

/-- The mode of a given name. -/
def ofName? (text : String) : Option Mode := all.find? fun m => m.name == text

/-- A name is read back as the mode it was written for. -/
@[simp] theorem ofName?_name (m : Mode) : ofName? m.name = some m := by
  cases m <;> decide +kernel

end Mode

end UmlMarkup
