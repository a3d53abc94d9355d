import UmlMarkup.CommandLine.Run

/-!
# The program

The only module that touches the machine. It answers what a session asks for
from the file system and prints what it ends with.
-/

namespace UmlMarkup

/-- A failure of the operating system as a reason. -/
def fileError (e : IO.Error) : FileError :=
  match e with
  | .noFileOrDirectory .. => .missing
  | .inappropriateType _ code _ => if code = 21 then .isDirectory else .notDirectory
  | .permissionDenied .. => .other "Permission denied (os error 13)"
  | e => .other (toString e)

/-- Reads the text of a file of the machine. -/
def readText (path : String) : IO (Except ReadError String) := do
  try
    match String.fromUTF8? (← IO.FS.readBinFile path) with
    | some text => return .ok text
    | none => return .error .notText
  catch e =>
    match fileError e with
    | .missing | .notDirectory => return .error .absent
    | e => return .error (.unreadable e)

/-- Writes a file of the machine. -/
def writeText (path text : String) : IO (Except FileError Unit) := do
  try
    IO.FS.writeFile path text
    return .ok ()
  catch e => return .error (fileError e)

/-- Runs a session on the machine. -/
def Session.perform : Session → IO Output
  | .finished output => return output
  | .reading path next => do (next (← readText path)).perform
  | .writing path text next => do (next (← writeText path text)).perform

end UmlMarkup

/-- The program. -/
def main (arguments : List String) : IO UInt32 := do
  let unit? ← IO.getEnv "UMLSCAN_INDENT_UNIT"
  let output ← (UmlMarkup.CommandLine.session arguments unit?).perform
  IO.print output.stdout
  IO.eprint output.stderr
  return output.code.toUInt32
