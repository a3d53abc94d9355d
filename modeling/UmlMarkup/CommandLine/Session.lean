/-!
# Sessions

The program as a whole is a dialogue with a file system. A **session** is what
is left of it: it is either over, with an output, or it waits for the text of a
file, or it waits for a file to be written, and the answer tells how it goes on.
What answers may be the file system of the machine or a tree of files in memory;
the session cannot tell them apart.
-/

namespace UmlMarkup

/-- The version of the program. The command line and the editor front end tell
the same. -/
def version : String := "0.3.0"

/-- Why a file cannot be opened. -/
inductive FileError where
  | missing
  | notDirectory
  | isDirectory
  /-- A reason in the words of the operating system. -/
  | other (text : String)
  deriving DecidableEq, Repr

/-- The reason as the operating system words it. -/
def FileError.message : FileError → String
  | missing => "No such file or directory (os error 2)"
  | notDirectory => "Not a directory (os error 20)"
  | isDirectory => "Is a directory (os error 21)"
  | other text => text

/-- Why the text of a file cannot be read. -/
inductive ReadError where
  /-- There is nothing at the path. -/
  | absent
  /-- There is something, but it cannot be read. -/
  | unreadable (e : FileError)
  /-- The file is not UTF-8 text. -/
  | notText
  deriving DecidableEq, Repr

/-- What the program leaves behind, files apart. -/
structure Output where
  code : Nat
  stdout : String
  stderr : String
  deriving DecidableEq, Repr

/-- What is left of a run of the program. -/
inductive Session where
  | finished (output : Output)
  | reading (path : String) (next : Except ReadError String → Session)
  | writing (path text : String) (next : Except FileError Unit → Session)

end UmlMarkup
