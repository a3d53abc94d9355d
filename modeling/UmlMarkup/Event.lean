import UmlMarkup.Mode

/-!
# Log events

The library does not write a log. The operations whose course may be of interest
to someone who looks for a fault say instead which events they would log, in
order; a front end prints them or drops them.
-/

namespace UmlMarkup

/-- How closely one must look to see an event. -/
inductive Level where
  | debug
  | trace
  deriving DecidableEq, Repr

/-- The name of a level in a log. -/
def Level.name : Level → String
  | debug => "DEBUG"
  | trace => "TRACE"

/-- Something worth a line in a log. -/
inductive Event where
  /-- A dialect was registered under a new name. -/
  | registered (dialect label : String)
  /-- A dialect took the place of another of its name. -/
  | replaced (dialect : String)
  /-- No dialect answers to a key. -/
  | unknownKey (key : String)
  /-- The number of lines changed, and all of them were scanned again. -/
  | lineCountChanged (cached current : Nat)
  /-- A line was scanned again, and `mode` is innermost after it. -/
  | rescanned (line : Nat) (mode : Mode)
  deriving DecidableEq, Repr

namespace Event

/-- The level of an event. -/
def level : Event → Level
  | registered .. | replaced .. | unknownKey .. | lineCountChanged .. => .debug
  | rescanned .. => .trace

/-- The text of an event. -/
def message : Event → String
  | registered .. => "registered dialect"
  | replaced .. => "replacing registered dialect"
  | unknownKey .. => "no dialect registered"
  | lineCountChanged .. => "line count changed, rescanning document"
  | rescanned .. => "rescanned line"

end Event

end UmlMarkup
