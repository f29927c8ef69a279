import TypedMemory.Command.Disk
import TypedMemory.Command.Usage
import TypedMemory.Layout.Report
import TypedMemory.Options.File
import TypedMemory.Script.Native
import TypedMemory.Table

/-!
# Running commands

What a command line does, as a function of the files on disk: what is printed, what is
noted and told, how the program ends, and what is written. Nothing is written but the
memory of a script that ran to its end, to the path the command line gives.

The command line is read in this order, and the first thing wrong with it counts: the
options in front, the name of the command, the options file, the options of the command.
In the place of the name the options in front can stand once more, to ask for the usage.
A failure that is about scripts, layouts or memory is told in one line; any other is let
through.
-/

namespace TypedMemory.Command

/-! ### Outcomes -/

/-- How a command ends. -/
inductive Ending
  | success
  /-- A failure that was told. -/
  | failed
  /-- A failure that was let through. -/
  | escaped (e : Error)
  /-- The command line makes no sense. -/
  | usage
  deriving DecidableEq

/-- What a command does. -/
structure Outcome where
  ending : Ending
  /-- The lines printed. -/
  output : List Text := []
  /-- The lines of notes and failures. -/
  messages : List Text := []
  /-- The file that is written. -/
  written : Option (Text × Bytes) := none

/-- The status that the program ends with. -/
def Outcome.exitCode (o : Outcome) : Nat :=
  match o.ending with
  | .success => 0
  | .failed | .escaped _ => 1
  | .usage => 2

/-- Why a command stops before its end; what it has printed by then stays printed. -/
inductive Stop
  | failure (e : Error) (printed : List Text)
  | usage

/-- The steps of a command: they take notes, and can stop it. -/
abbrev Action (α : Type) := ExceptT Stop (StateM (List Log.Event)) α

namespace Action

/-- Take notes. -/
def note (events : List Log.Event) : Action Unit := fun log => (.ok (), log ++ events)

/-- Stop at a failure. -/
def lift {α : Type} (r : Except Error α) : Action α := fun log =>
  match r with
  | .ok a => (.ok a, log)
  | .error e => (.error (.failure e []), log)

/-- Stop because the command line makes no sense. -/
def refuse {α : Type} : Action α := fun log => (.error .usage, log)

/-- Stop because the command line makes no sense, unless there is a value. -/
def require {α : Type} (value : Option α) : Action α := fun log =>
  match value with
  | some a => (.ok a, log)
  | none => (.error .usage, log)

end Action

/-- What a command prints, and the file it writes. -/
structure Product where
  output : List Text
  written : Option (Text × Bytes) := none

/-- The text with its surrogates as escapes, so that it can be told. -/
def encodable (t : Text) : Text :=
  t.flatMap fun c => if c.isSurrogate then "\\u" ++ Numeral.paddedHex 4 c.val else [c]

/-- The outcome of the steps of a command, with the notes told from a level on. -/
def Action.outcome (least : Log.Level) (action : Action Product) : Outcome :=
  let (result, log) := action []
  let messages := (Log.lines least log).map encodable
  match result with
  | .ok product => ⟨.success, product.output, messages, product.written⟩
  | .error (.failure e printed) =>
    if e.isOwn then ⟨.failed, printed, messages ++ [encodable ("Error: " ++ e.message)], none⟩
    else ⟨.escaped e, printed, messages, none⟩
  | .error .usage => { ending := .usage }

/-! ### Files -/

/-- The text with every line end as a line feed. -/
def universalLines : Text → Text
  | [] => []
  | c :: rest =>
    if c = '\r' then
      match rest with
      | [] => ['\n']
      | d :: more =>
        if d = '\n' then '\n' :: universalLines more else '\n' :: universalLines (d :: more)
    else c :: universalLines rest

/-- The text in a file. -/
def fileText (contents : Bytes) : Except Error Text :=
  match Encoding.utf8.decode contents with
  | .ok t => .ok (universalLines t)
  | .error _ => .error (.failure .badBytes)

/-- The contents of the file at a path, which has to be there. -/
def existing (disk : Disk) (path : Text) : Action Bytes :=
  match disk path with
  | .file contents => pure contents
  | .unaskable cause => Action.lift (.error (.failure cause))
  | _ => Action.refuse

/-- Why nothing can be written to a path, if nothing can. -/
def writeFault? (disk : Disk) (path : Text) : Option Error :=
  match disk path with
  | .file _ | .vacant => none
  | .directory => some (.failure .isDirectory)
  | .blocked cause | .unaskable cause => some (.failure cause)

/-! ### The values of options -/

/-- A whole number, in any of the notations that arguments have. -/
def wholeNumber (t : Text) : Action Int :=
  Action.require (Numeral.read? .marked t)

/-- Check the value of an option: files have to be there, and numbers have to be numbers. -/
def checkValue (disk : Disk) (name value : Text) : Action Unit :=
  if name = "input" ∨ name = "dump" then do
    let _ ← existing disk value
  else if name = "address" ∨ name = "base" then do
    let _ ← wholeNumber value
  else pure ()

/-- Check the values of the options that are given, in the order they are given in. Of an
option that is given twice the last value counts, in the place of the first. -/
def checkValues (disk : Disk) (a : Arguments) : Action Unit :=
  (a.options.map (·.1)).eraseDups.forM fun name =>
    (a.value? name).forM (checkValue disk name)

/-! ### The steps of commands -/

variable [Host]

/-- Run a script in a scope and a memory: its value, and the scope and memory it
leaves. -/
def evaluate (engine : Engine) (t : Text) (s : Scope) (m : Memory) :
    Action (Value × Scope × Memory) := fun log =>
  match engine.run t s ⟨m, []⟩ with
  | (.ok (v, s), machine) => (.ok (v, s, machine.memory), log ++ machine.log)
  | (.error e, machine) => (.error (.failure e []), log ++ machine.log)

/-- Run the script in a file. -/
def runScript (engine : Engine) (path : Text) (contents : Bytes) (s : Scope) (m : Memory) :
    Action (Value × Scope × Memory) := do
  let t ← Action.lift (fileText contents)
  Action.note [.running path]
  evaluate engine t s m

/-- The memory of a script without a dump. -/
def noMemory : Memory := ⟨[], 0, false, none⟩

/-- The memory of a dump. -/
def loadDump (path : Text) (contents : Bytes) (base : Int) (readOnly : Bool) : Action Memory := do
  Action.note [.loaded contents.length path base]
  pure ⟨contents, base, readOnly, none⟩

/-- A value as lines of JSON. -/
def valueLines (v : Value) : Action (List Text) := do
  let plain ← Action.lift (Json.plain v)
  let shown ← Action.lift (Json.render .indented plain)
  pure [shown]

/-- The structs that a scope declares as constants. -/
def declaredStructs (s : Scope) : List (Text × Layout) :=
  s.bindings.filterMap fun e =>
    match e.value with
    | .type l => if s.isConstant e.name && l.isStruct then some (e.name, l) else none
    | _ => none

/-- The reports on layouts. -/
def reports : List (Text × Layout) → Except Error (List LayoutReport)
  | [] => .ok []
  | (name, l) :: rest => do
    let report ← LayoutReport.ofStruct name l
    let more ← reports rest
    pure (report :: more)

/-! ### Reports as tables -/

/-- The width of the console. -/
def consoleWidth : Nat := 100

/-- The columns of a report. -/
def reportColumns : List Table.Column :=
  [⟨"Offset", true⟩, ⟨"Name", false⟩, ⟨"Type", false⟩, ⟨"Size", true⟩,
    ⟨"Gap", true⟩]

/-- A field of a report as a row; no gap is left open. -/
def reportRow (f : FieldReport) : List Text :=
  [Numeral.hex f.offset, f.name, f.type, Numeral.decimal f.size,
    if f.gap = 0 then [] else Numeral.decimal f.gap]

/-- The heading of a report. -/
def reportHeading (r : LayoutReport) : Text :=
  let padding : Text :=
    if r.padding = 0 then [] else ", " ++ Numeral.decimal r.padding ++ " bytes padding"
  r.name ++ " " ++ Numeral.decimal r.size ++ " bytes" ++ padding

/-- A report as a heading and a table, and a line between it and the next. -/
def reportLines (r : LayoutReport) : List Text :=
  Table.paragraph consoleWidth (reportHeading r) ++
    Table.render consoleWidth reportColumns (r.fields.map reportRow) ++ [[]]

/-! ### The commands -/

/-- Show the layouts that a script declares. -/
def runInfo (disk : Disk) (options : Options) (a : Arguments) : Action Product := do
  checkValues disk a
  let path ← Action.require (a.value? "input")
  let contents ← existing disk path
  Action.require (if a.positional.isEmpty then some () else none)
  let (_, s, _) ← runScript (.standard options) path contents .empty noMemory
  let reports ← Action.lift (reports (declaredStructs s))
  if a.has "json" then
    let record := Value.ofEntries (reports.map fun r => ⟨r.name, r.toRecord⟩)
    let shown ← Action.lift (Json.render .indented record)
    pure { output := [shown] }
  else pure { output := reports.flatMap reportLines }

/-- The address of a dump's first byte. -/
def baseOf (a : Arguments) : Action Int :=
  wholeNumber ((a.value? "base").getD "0")

/-- Read a value from a dump. -/
def runRead (disk : Disk) (options : Options) (a : Arguments) : Action Product := do
  checkValues disk a
  let path ← Action.require (a.value? "input")
  let contents ← existing disk path
  let dumpPath ← Action.require (a.value? "dump")
  let dump ← existing disk dumpPath
  let type ← Action.require (a.value? "type")
  let given ← Action.require (a.value? "address")
  let address ← wholeNumber given
  let base ← baseOf a
  Action.require (if a.positional.isEmpty then some () else none)
  let engine := Engine.standard options
  let (_, s, _) ← runScript engine path contents .empty noMemory
  let (v, _, _) ← evaluate engine type s noMemory
  let l ← Action.require (match v with
    | .type l => some l
    | _ => none)
  let m ← loadDump dumpPath dump base true
  Action.note (Codec.readNotes options m l address.natAbs)
  let v ← Action.lift (Codec.read options m l address.natAbs)
  let output ← valueLines v
  pure { output }

/-- The name that the memory of a dump has in a script. -/
def memoryName : Text := "MEMORY"

/-- Run a script. -/
def runRun (disk : Disk) (options : Options) (a : Arguments) : Action Product := do
  checkValues disk a
  let path ← Action.require a.positional.head?
  let contents ← existing disk path
  Action.require (if a.positional.length = 1 then some () else none)
  let base ← baseOf a
  let output := (a.value? "output").filter fun path => !path.isEmpty
  let dump := a.value? "dump"
  Action.require (if output.isSome && dump.isNone then none else some ())
  let m ← match dump with
    | some dumpPath => do
      let bytes ← existing disk dumpPath
      loadDump dumpPath bytes base (a.value? "output").isNone
    | none => pure noMemory
  let s : Scope := if dump.isSome then Scope.empty.withConstant memoryName .memory else .empty
  let (v, _, m) ← runScript (.standard options) path contents s m
  let lines ← match v with
    | .unit => pure []
    | v => valueLines v
  match output with
  | none => pure { output := lines }
  | some path =>
    let path := Path.tidy path
    match writeFault? disk path with
    -- What the script gave is printed before anything is written.
    | some e => fun log => (.error (.failure e lines), log)
    | none => do
      Action.note [.saved m.bytes.length path]
      pure { output := lines, written := some (path, m.bytes) }

/-! ### The program -/

/-- Do what a command says, or tell its usage. -/
def Name.perform (name : Name) (disk : Disk) (options : Options) (rest : List Text) :
    Action Product := do
  let a ← Action.require (Arguments.parse (name.options.map OptionUsage.spec) true rest)
  if a.has "help" then pure { output := name.usage }
  else
    match name with
    | .info => runInfo disk options a
    | .read => runRead disk options a
    | .run => runRun disk options a

/-- The options that the options file gives. A file that makes no sense is something wrong
with the command line; one that is not even of the right kind is let through. -/
def loadOptions (disk : Disk) (path : Option Text) : Action Options :=
  match path.filter fun path => !path.isEmpty with
  | none => pure {}
  | some path =>
    let path := Path.tidy path
    let (events, result) := match disk path with
      | .file contents =>
        match fileText contents with
        | .ok t => Options.load path (some t)
        | .error e => ([], .error e)
      | .blocked .nameTooLong => ([], .error (.failure .nameTooLong))
      | _ => Options.load path none
    do
      Action.note events
      match result with
      | .ok options => pure options
      | .error (.failure cause) =>
        if [.badKind, .noAttribute, .nameTooLong].contains cause then
          Action.lift (.error (.failure cause))
        else Action.refuse
      | .error _ => Action.refuse

/-- The least level of notes that are told, by how often more are asked for. -/
def leastLevel : Nat → Log.Level
  | 0 => .warning
  | 1 => .info
  | _ => .debug

/-- The path of the options file, which must not be a directory. -/
def configPath (disk : Disk) (a : Arguments) : Action (Option Text) :=
  match a.value? "config" with
  | none => pure none
  | some path =>
    match disk path with
    | .directory => Action.refuse
    | .unaskable cause => Action.lift (.error (.failure cause))
    | _ => pure (some path)

/-- The command that the arguments behind the options name, and the arguments of that
command. -/
def namedCommand? : List Text → Option (Name × List Text)
  | first :: rest => (Name.ofText? first).map fun name => (name, rest)
  | [] => none

/-- What stands in the place of a command and names none is read once more as the options
in front, so that behind two hyphens the usage can still be asked for; with anything else
the command line makes no sense. -/
def withoutCommand (disk : Disk) (args : List Text) : Action Product := do
  let a ← Action.require (Arguments.parse (groupOptions.map OptionUsage.spec) false args)
  if a.has "help" then pure { output := groupUsage }
  else
    let _ ← configPath disk a
    Action.refuse

/-- **What a command line does.** -/
def run (disk : Disk) (args : List Text) : Outcome :=
  match Arguments.parse (groupOptions.map OptionUsage.spec) false args with
  | none => { ending := .usage }
  | some a =>
    if a.has "help" then { ending := .success, output := groupUsage }
    else
      Action.outcome (leastLevel (a.count "verbose")) do
        let config ← configPath disk a
        match namedCommand? a.positional with
        | none => withoutCommand disk a.positional
        | some (name, rest) =>
          let options ← loadOptions disk config
          name.perform disk options rest

end TypedMemory.Command
