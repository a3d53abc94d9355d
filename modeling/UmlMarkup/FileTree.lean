import UmlMarkup.CommandLine.Session
import UmlMarkup.FileName

/-!
# File trees in memory

A file tree holds the files below one directory, each under the names that lead
to it. Its directories are those on the way to a file, and the directory itself.
A session can be run in it: `Session.runIn` answers what the session asks for
and returns the tree as the session leaves it.

A path is walked name by name. Empty names and `.` stay where they are and `..`
goes back, but all three need a directory to stand in, so a path that ends in a
slash leads to no file.
-/

namespace UmlMarkup

/-- The files below one directory. -/
structure FileTree where
  files : List (List (List Char) × ByteArray)

/-- Where a path leads. -/
inductive Node where
  | directory (names : List (List Char))
  | file (names : List (List Char))
  deriving DecidableEq, Repr

namespace FileTree

/-- The bytes of the file that the names lead to. -/
def bytes? (t : FileTree) (names : List (List Char)) : Option ByteArray :=
  (t.files.find? fun f => f.1 == names).map (·.2)

/-- What the names lead to. -/
def node? (t : FileTree) (names : List (List Char)) : Option Node :=
  if (t.bytes? names).isSome then some (.file names)
  else if names.isEmpty || t.files.any (fun f => names.isPrefixOf f.1) then
    some (.directory names)
  else none

/-- Goes from a node along a path. -/
def walk (t : FileTree) : Node → List (List Char) → Except FileError Node
  | node, [] => .ok node
  | .file _, _ :: _ => .error .notDirectory
  | .directory names, piece :: rest =>
    if piece = [] ∨ piece = ['.'] then t.walk (.directory names) rest
    else if piece = ['.', '.'] then t.walk (.directory names.dropLast) rest
    else
      match t.node? (names ++ [piece]) with
      | some node => t.walk node rest
      | none => .error .missing

/-- Where a path leads. -/
def find (t : FileTree) (path : String) : Except FileError Node :=
  if path.isEmpty then .error .missing else t.walk (.directory []) (pathPieces path.toList)

/-- The text of a file. -/
def read (t : FileTree) (path : String) : Except ReadError String :=
  match t.find path with
  | .error _ => .error .absent
  | .ok (.directory _) => .error (.unreadable .isDirectory)
  | .ok (.file names) =>
    match (t.bytes? names).bind String.fromUTF8? with
    | some text => .ok text
    | none => .error .notText

/-- Puts a file into the tree, in the place of one of the same name. -/
def insert (t : FileTree) (names : List (List Char)) (bytes : ByteArray) : FileTree :=
  ⟨(names, bytes) :: t.files.filter fun f => f.1 != names⟩

/-- The names of the file that writing to a path writes. It need not exist, but
its directory must. -/
def target (t : FileTree) (path : String) : Except FileError (List (List Char)) :=
  match t.find path with
  | .ok (.file names) => .ok names
  | .ok (.directory _) => .error .isDirectory
  | .error .missing =>
    let pieces := pathPieces path.toList
    let slashes := (pieces.reverse.takeWhile (· == [])).length
    let kept := pieces.take (pieces.length - slashes)
    match t.walk (.directory []) kept.dropLast, kept.getLast? with
    | .ok (.directory names), some last =>
      if slashes = 0 then .ok (names ++ [last]) else .error .isDirectory
    | .error e, _ => .error e
    | _, _ => .error .missing
  | .error e => .error e

/-- Writes a file. -/
def write (t : FileTree) (path text : String) : Except FileError FileTree :=
  (t.target path).map fun names => t.insert names text.toUTF8

end FileTree

/-- Runs a session in a file tree. -/
def Session.runIn (t : FileTree) : Session → Output × FileTree
  | .finished output => (output, t)
  | .reading path next => (next (t.read path)).runIn t
  | .writing path text next =>
    match t.write path text with
    | .ok t' => (next (.ok ())).runIn t'
    | .error e => (next (.error e)).runIn t

end UmlMarkup
