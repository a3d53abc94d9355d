import UmlMarkup.Rule

/-!
# Dialects

A dialect is one kind of diagram source: the sequence diagrams, the class
diagrams and so on. It has a name under which it is registered, the content
identifier and file suffixes that lead to it, the markers of comments and
strings, an opinion on indentation, and its table of rules.

A dialect is plain data. Nothing is assumed of it: markers and keywords may be
empty or in any script, and rules may open and close any construct.
-/

namespace UmlMarkup

/-- How a dialect derives an indentation from the open constructs. -/
inductive IndentPolicy where
  /-- It has no opinion. -/
  | none
  /-- Only the inside of a box or a note is indented. -/
  | constructs
  /-- Every open nesting construct indents. -/
  | nesting
  deriving DecidableEq, Repr

/-- One kind of diagram source. -/
structure Dialect where
  /-- The name under which the dialect is registered. -/
  name : String
  /-- The name shown to a reader. -/
  label : String
  contentId : String
  /-- The suffixes of its files, with or without a leading dot. -/
  suffixes : List String
  /-- What starts a comment that runs to the end of the line. -/
  lineComment : List Char
  blockOpen : List Char
  blockClose : List Char
  /-- What starts and ends a string. -/
  quote : Char
  indentPolicy : IndentPolicy
  rules : List Rule
  deriving DecidableEq, Repr

/-- What an editor needs to know in order to send files to a dialect. -/
structure Registration where
  name : String
  label : String
  contentId : String
  suffixes : List String
  lineComment : List Char
  blockOpen : List Char
  blockClose : List Char
  deriving DecidableEq, Repr

/-- The registration record of a dialect. -/
def Dialect.registration (d : Dialect) : Registration where
  name := d.name
  label := d.label
  contentId := d.contentId
  suffixes := d.suffixes
  lineComment := d.lineComment
  blockOpen := d.blockOpen
  blockClose := d.blockClose

end UmlMarkup
