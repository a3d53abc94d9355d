import UmlMarkup.CommandLine.Arguments
import UmlMarkup.CommandLine.Session
import UmlMarkup.Html
import UmlMarkup.Report.Tokens

/-!
# The command line

Every command that works on a file goes through the same three gates: the
dialect must be known, the file must be there, and it must hold text. The first
gate that is shut decides the message. The exit code is 0 for a success, 1 for a
failure, an unterminated diagram being one, and 2 for arguments that make no
sense.
-/

namespace UmlMarkup

namespace CommandLine

/-- A success, with what it prints on the two outputs. -/
def succeed (stdout stderr : String) : Session := .finished ⟨0, stdout, stderr⟩

/-- A failure with a line on the standard error. -/
def fail (stderr : String) : Session := .finished ⟨1, "", stderr⟩

/-- A log event as a line. -/
def logLine (e : Event) : String :=
  let fields :=
    match e with
    | .registered dialect label => s!" dialect={dialect} label={label}"
    | .replaced dialect => s!" dialect={dialect}"
    | .unknownKey key => s!" key={key}"
    | .lineCountChanged cached current => s!" cached={cached} current={current}"
    | .rescanned line mode => s!" line={line} mode={mode.name}"
  e.level.name ++ " " ++ e.message ++ fields ++ "\n"

/-- The log of a run, which is kept only if it is asked for. -/
def log (verbose : Bool) (events : List Event) : String :=
  if verbose then String.join (events.map logLine) else ""

/-- Renders a page, onto the standard output or into a file. -/
def highlight (d : Dialect) (path : String) (output? : Option String) (notes source : String) :
    Session :=
  let title := (baseName? path.toList).getD []
  let page := String.ofList (Html.page d title source.toList)
  match output? with
  | none => succeed page notes
  | some out =>
    .writing out page fun
      | .ok _ => succeed "" (notes ++ s!"Highlighted: {out}\n")
      | .error e => fail (notes ++ s!"Error writing {out}: " ++ e.message ++ "\n")

/-- Reports what a text leaves open. -/
def check (d : Dialect) (path notes source : String) : Session :=
  match (Document.ofText d source.toList).unterminated? with
  | some s => fail (notes ++ s!"{path}: " ++ Report.unterminated s ++ "\n")
  | none => succeed "" (notes ++ s!"OK: {path}\n")

/-- Finds the dialect and reads the file, and goes on with both and with the log
so far. -/
def onSource (r : Registry) (q : Request) (path : String)
    (next : Dialect → String → String → Session) : Session :=
  let (found, events) :=
    match q.dialect? with
    | some key => (r.lookup key, r.lookupEvents key)
    | none => (r.lookupPath path, r.lookupPathEvents path)
  let notes := log q.verbose (Registry.builtinEvents ++ events)
  match found with
  | .error e => fail (notes ++ "Error: " ++ e.message ++ "\n")
  | .ok d =>
    .reading path fun
      | .ok source => next d notes source
      | .error .absent => fail (notes ++ s!"Error: file not found: {path}\n")
      | .error (.unreadable e) => fail (notes ++ s!"Error reading {path}: " ++ e.message ++ "\n")
      | .error .notText =>
        fail (notes ++ s!"Error reading {path}: stream did not contain valid UTF-8\n")

/-- The session of a request. -/
def respond (q : Request) : Session :=
  let r := Registry.builtin
  match q.command with
  | .dialects => succeed (Report.dialects r) (log q.verbose Registry.builtinEvents)
  | .tokens path =>
    onSource r q path fun d notes source =>
      succeed (Report.tokens d q.unit source.toList) notes
  | .highlight path output? =>
    onSource r q path fun d notes source => highlight d path output? notes source
  | .check path => onSource r q path fun d notes source => check d path notes source

/-- How the program is called. -/
def usage : String :=
  "Usage: umlscan [OPTIONS] COMMAND\n\n" ++
  "Commands:\n" ++
  "  tokens PATH                Print the tokens and outgoing state of every line\n" ++
  "  dialects                   List the registered dialects\n" ++
  "  highlight PATH [-o FILE]   Render a file as highlighted HTML\n" ++
  "  check PATH                 Report constructs left open at the end of a file\n" ++
  "  help [COMMAND]             Print this help\n\n" ++
  "Options:\n" ++
  "  --dialect KEY              Dialect name, suffix or content id\n" ++
  "  --indent-unit N            Columns per indentation level\n" ++
  "  -v, --verbose              Log to the standard error\n" ++
  "  -V, --version              Print the version\n"

/-- The session of a call of the program with the given arguments and the given
value of `UMLSCAN_INDENT_UNIT` in the environment. -/
def session (arguments : List String) (environment? : Option String) : Session :=
  match Arguments.read arguments environment? with
  | .ok q => respond q
  | .error .version => succeed s!"umlscan {version}\n" ""
  | .error .help => succeed usage ""
  | .error (.fault e) => .finished ⟨2, "", "error: " ++ e.message ++ "\n\n" ++ usage⟩

end CommandLine

end UmlMarkup
