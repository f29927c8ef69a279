import TypedMemory.Text

/-!
# Arguments of a command

Options stand on a command line in a short form, a hyphen and a letter, or in a long
one, two hyphens and a word. An option with a value has it behind an equals sign or as
the next argument, and in the short form also right behind the letter; short options
without values can be run together. Two hyphens alone end the options, and a single
hyphen is no option.

What is no option is a **positional** argument. A command can allow options behind it, or
leave everything from there on to somebody else.
-/

namespace TypedMemory.Command

/-- An option of a command. -/
structure OptionSpec where
  /-- The word of the long form. -/
  name : Text
  short : Option CodePoint := none
  takesValue : Bool := true

/-- The arguments of a command: the options with their values, in order, and what is no
option. -/
structure Arguments where
  options : List (Text × Text)
  positional : List Text

namespace Arguments

/-- The last value given for an option. -/
def value? (a : Arguments) (name : Text) : Option Text :=
  (a.options.reverse.find? fun o => o.1 = name).map (·.2)

/-- How often an option is given. -/
def count (a : Arguments) (name : Text) : Nat :=
  (a.options.filter fun o => o.1 = name).length

/-- Whether an option is given. -/
def has (a : Arguments) (name : Text) : Bool := 0 < a.count name

/-- With one more option in front. -/
def withOption (a : Arguments) (name value : Text) : Arguments :=
  { a with options := (name, value) :: a.options }

/-- An option whose value may still be missing. -/
abbrev Pending := Option Text

/-- The options run together in a short form, behind its hyphen, and the last of them if
its value is to come. -/
def shortRun (specs : List OptionSpec) : Text → Option (List (Text × Text) × Pending)
  | [] => some ([], none)
  | c :: rest =>
    match specs.find? fun spec => spec.short = some c with
    | none => none
    | some spec =>
      if spec.takesValue then
        if rest = [] then some ([], some spec.name) else some ([(spec.name, rest)], none)
      else (shortRun specs rest).map fun (options, pending) => ((spec.name, []) :: options, pending)

/-- The option in a long form, behind its hyphens, and the same if its value is to
come. -/
def longOption (specs : List OptionSpec) (t : Text) : Option (List (Text × Text) × Pending) :=
  let word := t.takeWhile (· ≠ ('=' : CodePoint))
  let attached := word.length < t.length
  match specs.find? fun spec => spec.name = word with
  | none => none
  | some spec =>
    if spec.takesValue then
      if attached then some ([(word, t.drop (word.length + 1))], none) else some ([], some word)
    else if attached then none
    else some ([(word, [])], none)

/-- What one argument says that begins with a hyphen and goes on. -/
def optionOf (specs : List OptionSpec) : Text → Option (List (Text × Text) × Pending)
  | hyphen :: rest =>
    match rest with
    | second :: word =>
      if second = hyphen then longOption specs word else shortRun specs rest
    | [] => none
  | [] => none

/-- Whether an argument is an option: a hyphen and something behind it. -/
def isOption (t : Text) : Bool := t.head? = some ('-' : CodePoint) && 1 < t.length

/-- **The arguments of a command line**, none if an option is unknown or has no value.
The flag tells whether options may follow positional arguments. -/
def parse (specs : List OptionSpec) (interspersed : Bool) : List Text → Option Arguments
  | [] => some ⟨[], []⟩
  | arg :: rest =>
    if arg = "--" then some ⟨[], rest⟩
    else if isOption arg then
      match optionOf specs arg, rest with
      | none, _ => none
      | some (options, none), rest =>
        (parse specs interspersed rest).map fun a => { a with options := options ++ a.options }
      | some (_, some _), [] => none
      | some (options, some pending), value :: rest =>
        (parse specs interspersed rest).map fun a =>
          { a with options := options ++ (pending, value) :: a.options }
    else if interspersed then
      (parse specs interspersed rest).map fun a => { a with positional := arg :: a.positional }
    else some ⟨[], arg :: rest⟩

end Arguments

end TypedMemory.Command
