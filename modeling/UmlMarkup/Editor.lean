import UmlMarkup.Document
import UmlMarkup.Indent
import UmlMarkup.Registry

/-!
# The front end for editors

An editor keeps the text and asks for one line at a time, naming the dialect by
any key of the registry and handing in the state that it keeps beside the line
before. Its columns count UTF-16 units, so the tokens it gets carry UTF-16
offsets, and with them the style under which it shows each kind.

The state travels as the list of the names of the open constructs
(`ScanState.save`, `ScanState.load?`).
-/

namespace UmlMarkup

/-- A token as an editor sees it. -/
structure EditorToken where
  kind : Kind
  /-- The style to show it in, if any. -/
  style? : Option String
  /-- The UTF-16 offset of its start. -/
  start : Nat
  /-- The UTF-16 offset of its end. -/
  stop : Nat
  deriving DecidableEq, Repr

/-- A scanned line as an editor sees it. -/
structure EditorLine where
  tokens : List EditorToken
  state : ScanState
  deriving DecidableEq, Repr

/-- A token of `line` with its offsets. -/
def Token.toEditor (t : Token) (line : List Char) : EditorToken where
  kind := t.kind
  style? := t.kind.style?
  start := utf16Offset line t.span.start
  stop := utf16Offset line t.span.stop

namespace Registry

/-- Scans a line in the dialect that `key` leads to. -/
def editorLine (r : Registry) (key : String) (line : List Char) (state : ScanState) :
    Except LookupError EditorLine :=
  (r.lookup key).map fun d =>
    let e := d.scanEntry state line
    ⟨e.tokens.map (·.toEditor line), e.stateAfter⟩

/-- The width to indent the line after `state` by in the dialect that `key`
leads to, if that dialect has an opinion. -/
def editorIndent (r : Registry) (key : String) (state : ScanState) (unit : Nat) :
    Except LookupError (Option Nat) :=
  (r.lookup key).map fun d => d.indent? state unit

/-- The name of the dialect that `key` leads to, if there is one. -/
def nameOf? (r : Registry) (key : String) : Option String :=
  match r.lookup key with
  | .ok d => some d.name
  | .error _ => none

end Registry

end UmlMarkup
