/-!
# Names of files

A path is a sequence of names between slashes. Empty names and the name `.` lead
nowhere, so the path `docs//./login.pseq/` ends in `login.pseq`. The **base
name** of a path is its last name, unless that is `..`, which names no file.

The **extension** of a base name is what stands after its last dot. A name whose
only dot comes first has no extension, but one that ends in a dot has an empty
one.
-/

namespace UmlMarkup

/-- The pieces of a path between its slashes, empty ones included. -/
def pathPieces : List Char → List (List Char)
  | [] => [[]]
  | c :: rest =>
    if c = '/' then [] :: pathPieces rest
    else
      match pathPieces rest with
      | [] => [[c]]
      | piece :: more => (c :: piece) :: more

/-- The names on a path that lead somewhere. -/
def pathNames (path : List Char) : List (List Char) :=
  (pathPieces path).filter fun n => n ≠ [] ∧ n ≠ ['.']

/-- The name of the file that a path leads to. -/
def baseName? (path : List Char) : Option (List Char) :=
  (pathNames path).getLast?.filter (· ≠ ['.', '.'])

/-- What stands after the last dot of a base name. -/
def nameExtension? (name : List Char) : Option (List Char) :=
  let ext := (name.reverse.takeWhile (· ≠ '.')).reverse
  if name.length ≤ ext.length + 1 then none else some ext

/-- The extension of the file that a path leads to. -/
def extension? (path : List Char) : Option (List Char) := (baseName? path).bind nameExtension?

end UmlMarkup
