import TypedMemory.Command.Arguments

/-!
# The commands and their options

There are three commands: to show the layout of every struct that a script declares, to
read a value from a memory dump, and to run a script, perhaps against a dump. In front
of the command stand options for all of them.

Each command can tell its usage, a summary with its options in two columns.
-/

namespace TypedMemory.Command

/-- The commands. -/
inductive Name
  | info
  | read
  | run
  deriving DecidableEq

/-- The name of a command as it is typed. -/
def Name.text : Name → Text
  | .info => "info"
  | .read => "read"
  | .run => "run"

/-- Every command. -/
def Name.all : List Name := [.info, .read, .run]

/-- The command of this name. -/
def Name.ofText? (t : Text) : Option Name :=
  Name.all.find? fun name => name.text = t

/-- An option together with what its usage says. -/
structure OptionUsage where
  spec : OptionSpec
  /-- The kind of value it takes. -/
  kind : Text := []
  meaning : Text

/-- The option that asks for the usage. -/
def helpUsage : OptionUsage :=
  ⟨⟨"help", none, false⟩, [], "Show this message and exit."⟩

/-- The options in front of the command. -/
def groupOptions : List OptionUsage := [
  ⟨⟨"verbose", some 'v', false⟩, [], "Increase log output (repeatable)"⟩,
  ⟨⟨"config", none, true⟩, "FILE", "JSON options file"⟩,
  helpUsage]

/-- The options of a command. -/
def Name.options : Name → List OptionUsage
  | .info => [
    ⟨⟨"input", some 'i', true⟩, "FILE", "Layout script  [required]"⟩,
    ⟨⟨"json", none, false⟩, [], "Output as JSON"⟩,
    helpUsage]
  | .read => [
    ⟨⟨"input", some 'i', true⟩, "FILE", "Layout script  [required]"⟩,
    ⟨⟨"dump", some 'd', true⟩, "FILE", "Binary memory dump  [required]"⟩,
    ⟨⟨"type", some 't', true⟩, "TEXT", "Type expression, e.g. Player  [required]"⟩,
    ⟨⟨"address", some 'a', true⟩, "TEXT", "Address to read  [required]"⟩,
    ⟨⟨"base", none, true⟩, "TEXT", "Address of the dump's first byte"⟩,
    helpUsage]
  | .run => [
    ⟨⟨"dump", some 'd', true⟩, "FILE", "Binary memory dump bound to MEMORY"⟩,
    ⟨⟨"base", none, true⟩, "TEXT", "Address of the dump's first byte"⟩,
    ⟨⟨"output", some 'o', true⟩, "TEXT", "Save the modified dump here"⟩,
    helpUsage]

/-- What a command does, in one line. -/
def Name.summary : Name → Text
  | .info => "Display the layout of every struct a script declares."
  | .read => "Read a value from a memory dump and print it as JSON."
  | .run => "Run a script, optionally against a memory dump."

/-! ### Usage -/

/-- Rows in two columns, indented, the first column as wide as it has to be. -/
def twoColumns (rows : List (Text × Text)) : List Text :=
  let width := rows.foldl (fun w row => max w row.1.length) 0
  rows.map fun (left, right) =>
    "  " ++ left ++ List.replicate (width - left.length + 2) (' ' : CodePoint) ++ right

/-- The forms of an option, and the kind of value it takes. -/
def OptionUsage.forms (o : OptionUsage) : Text :=
  let short : Text := match o.spec.short with
    | some c => "-" ++ [c] ++ ", "
    | none => []
  let kind : Text := if o.kind.isEmpty then [] else " " ++ o.kind
  short ++ "--" ++ o.spec.name ++ kind

/-- The options with their meanings. -/
def optionLines (options : List OptionUsage) : List Text :=
  "Options:" :: twoColumns (options.map fun o => (o.forms, o.meaning))

/-- The usage of the program. -/
def groupUsage : List Text :=
  let head : List Text := ["Usage: cli [OPTIONS] COMMAND [ARGS]...", "",
    "  Typed memory layouts from native struct declarations.", ""]
  let middle : List Text := ["", "Commands:"]
  let commands := Name.all.map fun name => (name.text, name.summary)
  head ++ optionLines groupOptions ++ middle ++ twoColumns commands

/-- The usage of a command. -/
def Name.usage (name : Name) : List Text :=
  let positional : Text := if name = .run then " SCRIPT_FILE" else ""
  let head : List Text :=
    ["Usage: cli " ++ name.text ++ " [OPTIONS]" ++ positional, "", "  " ++ name.summary, ""]
  head ++ optionLines name.options

end TypedMemory.Command
