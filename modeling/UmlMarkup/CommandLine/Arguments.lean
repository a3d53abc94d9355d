/-!
# The arguments of the command line

The program takes options and one of four commands. Some options may stand
before the command as well as after it, where the later one wins, but none may
be given twice on the same side. A fifth command, `help`, takes no options: what
follows it can only be the name of the one command to be explained.

Arguments are read from left to right. An option that takes a value takes it
after an equals sign, glued to its letter, or as the next argument, which must
not look like an option then. Letters can be put together behind one dash. After
a command `--` ends the options, and what follows is a path whatever it looks
like; before the command nothing could follow it.

The first fault ends the reading, and so does an option that asks for the version
or for help. A value that stands before the command as an argument of its own is
looked at no sooner than the next option before the command, or else after the
last argument of all; a call for help that comes earlier is answered whatever
the value is.

`Arguments.read` is a fold over the arguments of `Reading.next`, one argument at
a time.
-/

namespace UmlMarkup

/-- What is asked of the program. -/
inductive Command where
  /-- Print the tokens of a file. -/
  | tokens (path : String)
  /-- List the dialects. -/
  | dialects
  /-- Render a file as HTML, into a file or onto the standard output. -/
  | highlight (path : String) (output? : Option String)
  /-- Report what a file leaves open. -/
  | check (path : String)
  deriving DecidableEq, Repr

/-- A command with the options that hold for all of them. -/
structure Request where
  command : Command
  /-- The key of the dialect, if it is not to be told from the path. -/
  dialect? : Option String
  /-- The columns of one level of indentation. -/
  unit : Nat
  verbose : Bool
  deriving DecidableEq, Repr

/-- What is wrong with the arguments. -/
inductive UsageError where
  | missingCommand
  | unknownCommand (text : String)
  | unknownOption (text : String)
  | repeatedOption (name : String)
  | missingValue (name : String)
  | invalidValue (name value : String)
  | unexpected (text : String)
  | missingPath
  deriving DecidableEq, Repr

/-- The text of a fault in the arguments. -/
def UsageError.message : UsageError → String
  | missingCommand => "a command is required"
  | unknownCommand text => s!"unknown command '{text}'"
  | unknownOption text => s!"unknown option '{text}'"
  | repeatedOption name => s!"the option '{name}' is given twice"
  | missingValue name => s!"the option '{name}' needs a value"
  | invalidValue name value => s!"invalid value '{value}' for '{name}'"
  | unexpected text => s!"unexpected argument '{text}'"
  | missingPath => "a path is required"

/-- Why the reading of the arguments ends before the last of them. -/
inductive Interrupt where
  | version
  | help
  | fault (e : UsageError)
  deriving DecidableEq, Repr

namespace Arguments

/-- The names of the commands. -/
inductive CommandName where
  | tokens
  | dialects
  | highlight
  | check
  | help
  deriving DecidableEq, Repr

/-- The command of a given name. -/
def CommandName.ofText? : String → Option CommandName
  | "tokens" => some tokens
  | "dialects" => some dialects
  | "highlight" => some highlight
  | "check" => some check
  | "help" => some help
  | _ => none

/-- The options that take a value, and the path of a command. -/
inductive Slot where
  | dialect
  | unit
  | output
  | path
  deriving DecidableEq, Repr

/-- What a slot is called in a message. -/
def Slot.name : Slot → String
  | dialect => "--dialect"
  | unit => "--indent-unit"
  | output => "--output"
  | path => "PATH"

/-- What was given on one side of the command. -/
structure Given where
  dialect? : Option String := none
  unit? : Option Nat := none
  verbose : Bool := false
  output? : Option String := none
  path? : Option String := none
  deriving DecidableEq, Repr

/-- Reads a number of columns: decimal digits, a sign before them allowed, whose
value fits into 32 bits. -/
def unitOfText? (text : String) : Option Nat :=
  let (negative, digits) :=
    match text.toList with
    | '+' :: rest => (false, rest)
    | '-' :: rest => (true, rest)
    | rest => (false, rest)
  if digits.isEmpty || !digits.all Char.isDigit then none
  else
    let n := digits.foldl (fun n c => n * 10 + (c.toNat - '0'.toNat)) 0
    if 4294967295 < n || (negative && n != 0) then none else some n

/-- Puts a text into a slot that must still be empty. -/
def put (old? : Option String) (slot : Slot) (text : String) : Except Interrupt (Option String) :=
  if old?.isSome then .error (.fault (.repeatedOption slot.name)) else .ok (some text)

/-- Puts a path into a slot that must still be empty. A path has a character at
least. -/
def putPath (old? : Option String) (slot : Slot) (text : String) :
    Except Interrupt (Option String) :=
  if text.isEmpty then .error (.fault (.invalidValue slot.name text)) else put old? slot text

/-- Fills a slot. -/
def Given.fill (g : Given) (slot : Slot) (text : String) : Except Interrupt Given :=
  match slot with
  | .dialect => (put g.dialect? slot text).map fun v => { g with dialect? := v }
  | .output => (putPath g.output? slot text).map fun v => { g with output? := v }
  | .path =>
    if g.path?.isSome then .error (.fault (.unexpected text))
    else (putPath g.path? slot text).map fun v => { g with path? := v }
  | .unit =>
    if g.unit?.isSome then .error (.fault (.repeatedOption slot.name))
    else
      match unitOfText? text with
      | some n => .ok { g with unit? := some n }
      | none => .error (.fault (.invalidValue slot.name text))

/-- Turns the log on. -/
def Given.beVerbose (g : Given) : Except Interrupt Given :=
  if g.verbose then .error (.fault (.repeatedOption "--verbose"))
  else .ok { g with verbose := true }

/-- The arguments read so far. -/
structure Reading where
  before : Given := {}
  command? : Option CommandName := none
  after : Given := {}
  /-- The option whose value the next argument must be. -/
  pending? : Option Slot := none
  /-- A value before the command that has not been looked at. -/
  held? : Option (Slot × String) := none
  /-- The command that help is asked about. -/
  topic? : Option CommandName := none
  /-- The options are over. -/
  pathsOnly : Bool := false
  deriving DecidableEq, Repr

namespace Reading

/-- What was given on the side of the command that is being read. -/
def current (r : Reading) : Given := if r.command?.isSome then r.after else r.before

/-- Replaces what was given on that side. -/
def setCurrent (r : Reading) (g : Given) : Reading :=
  if r.command?.isSome then { r with after := g } else { r with before := g }

/-- Fills a slot on that side. -/
def fill (r : Reading) (slot : Slot) (text : String) : Except Interrupt Reading :=
  (r.current.fill slot text).map r.setCurrent

/-- Turns the log on. -/
def beVerbose (r : Reading) : Except Interrupt Reading := r.current.beVerbose.map r.setCurrent

/-- Puts the value that is held back into its slot. -/
def settle (r : Reading) : Except Interrupt Reading :=
  match r.held? with
  | none => .ok r
  | some (slot, text) =>
    (r.before.fill slot text).map fun g => { r with before := g, held? := none }

/-- A value that is an argument of its own. -/
def value (r : Reading) (slot : Slot) (text : String) : Except Interrupt Reading :=
  if r.command?.isSome then { r with pending? := none }.fill slot text
  else .ok { r with pending? := none, held? := some (slot, text) }

/-- The command that help is asked about, of which there can be one only. -/
def topic (r : Reading) (text : String) : Except Interrupt Reading :=
  match r.topic?, CommandName.ofText? text with
  | none, some c => .ok { r with topic? := some c }
  | _, _ => .error (.fault (.unknownCommand text))

/-- An argument that is no option: a command, and after it a path or a topic. -/
def plain (r : Reading) (text : String) : Except Interrupt Reading :=
  match r.command? with
  | none =>
    match CommandName.ofText? text with
    | some c => .ok { r with command? := some c }
    | none => .error (.fault (.unknownCommand text))
  | some .help => r.topic text
  | some .dialects => .error (.fault (.unexpected text))
  | some _ => r.fill .path text

/-- The slot of a long option that takes a value. -/
def slotOfLong? (r : Reading) (name : String) : Option Slot :=
  match name with
  | "dialect" => some .dialect
  | "indent-unit" => some .unit
  | "output" => if r.command? = some .highlight then some .output else none
  | _ => none

/-- A long option, with its value if one is attached. -/
def long (r : Reading) (name : String) (value? : Option String) : Except Interrupt Reading :=
  match r.slotOfLong? name, value? with
  | some slot, some value => r.fill slot value
  | some slot, none => .ok { r with pending? := some slot }
  | none, some _ => .error (.fault (.unknownOption ("--" ++ name)))
  | none, none =>
    match name, r.command? with
    | "verbose", _ => r.beVerbose
    | "help", _ => .error .help
    | "version", none => .error .version
    | _, _ => .error (.fault (.unknownOption ("--" ++ name)))

/-- Letters behind one dash. The letter of an option that takes a value takes
the rest of them for it. -/
def letters (r : Reading) : List Char → Except Interrupt Reading
  | [] => .ok r
  | c :: rest =>
    match c, r.command? with
    | 'v', _ => r.beVerbose >>= fun r => letters r rest
    | 'h', _ => .error .help
    | 'V', none => .error .version
    | 'o', some .highlight =>
      match rest with
      | [] => .ok { r with pending? := some .output }
      | '=' :: value => r.fill .output (String.ofList value)
      | value => r.fill .output (String.ofList value)
    | _, _ => .error (.fault (.unknownOption (String.ofList ['-', c])))

/-- An option, written out after two dashes or as letters after one. -/
def option (r : Reading) : List Char → Except Interrupt Reading
  | '-' :: text =>
    let name := String.ofList (text.takeWhile (· ≠ '='))
    match text.dropWhile (· ≠ '=') with
    | [] => r.long name none
    | _ :: value => r.long name (some (String.ofList value))
  | text => r.letters text

/-- An argument where no value is awaited and the options are not over. -/
def argument (r : Reading) (text : String) : Except Interrupt Reading :=
  match text.toList with
  | ['-', '-'] =>
    if r.command?.isSome then .ok { r with pathsOnly := true }
    else .error (.fault .missingCommand)
  | '-' :: c :: rest =>
    if r.command?.isSome then r.option (c :: rest)
    else r.settle >>= fun r => r.option (c :: rest)
  | _ => r.plain text

/-- Reads the next argument. -/
def next (r : Reading) (text : String) : Except Interrupt Reading :=
  match r.pending? with
  | some slot =>
    if text.toList.head? = some '-' ∧ text ≠ "-" then .error (.fault (.missingValue slot.name))
    else r.value slot text
  | none =>
    if r.pathsOnly ∨ r.command? = some .help then r.plain text else r.argument text

/-- The path that a command needs. -/
def path (r : Reading) : Except Interrupt String :=
  match r.after.path? with
  | some p => .ok p
  | none => .error (.fault .missingPath)

/-- The command that was read. -/
def command (r : Reading) : Except Interrupt Command :=
  match r.command? with
  | none => .error (.fault .missingCommand)
  | some .dialects => .ok .dialects
  | some .tokens => r.path.map .tokens
  | some .highlight => r.path.map fun p => .highlight p r.after.output?
  | some .check => r.path.map .check
  | some .help => .error .help

/-- The columns of one level. Unless the option stands on both sides of the
command, the value of the environment has to be a number of columns, and it
holds where the option is not given at all. -/
def unit (r : Reading) (environment? : Option String) : Except Interrupt Nat :=
  let given? := r.after.unit?.or r.before.unit?
  match environment? with
  | none => .ok (given?.getD 4)
  | some text =>
    if r.before.unit?.isSome ∧ r.after.unit?.isSome then .ok (given?.getD 4)
    else
      match unitOfText? text with
      | some n => .ok (given?.getD n)
      | none => .error (.fault (.invalidValue Slot.unit.name text))

/-- The request, once all arguments are read. -/
def request (r : Reading) (environment? : Option String) : Except Interrupt Request := do
  if let some slot := r.pending? then
    .error (.fault (.missingValue slot.name))
  let command ← r.command
  let r ← r.settle
  let unit ← r.unit environment?
  return ⟨command, r.after.dialect?.or r.before.dialect?, unit,
    r.before.verbose || r.after.verbose⟩

end Reading

/-- Reads the arguments. The columns of one level can also come from the
environment. -/
def read (arguments : List String) (environment? : Option String) : Except Interrupt Request :=
  arguments.foldlM Reading.next {} >>= fun r => r.request environment?

end Arguments

end UmlMarkup
