import TypedMemory.Proofs.Command.Arguments
import TypedMemory.Proofs.Command.Disk
import TypedMemory.Proofs.Effect
import TypedMemory.Proofs.Json

/-!
# Saving what a script has made of a dump

A script that is run against a dump with a path for its output works on a copy of the dump in
memory, and the bytes of this memory are written to the path in the end. A command line that asks
for this is a `TypedMemory.Command.Saving`, in whatever order and form its options stand.

Saving is the last step, and the step before is to print the value of the script. So two things
decide: that the script parses and runs to its end, and that its value can be printed, which is
that it has a JSON form (`TypedMemory.Command.Saving.written_runRun`). A script whose last value is
the memory itself, or a number too long to be spelled, stores what it likes and nothing is saved.
Nothing but the output is ever written, so the dump stays as it is.
-/

namespace TypedMemory.Command

/-! ### The steps of a command -/

namespace Action

variable {α β : Type}

theorem bind_apply (x : Action α) (f : α → Action β) (log : List Log.Event) :
    (x >>= f) log =
      match x log with
      | (.ok a, log) => f a log
      | (.error stop, log) => (.error stop, log) := by
  change ExceptT.bindCont f (x log).1 (x log).2 = _
  rcases x log with ⟨_ | _, _⟩ <;> rfl

theorem require_some (a : α) : require (some a) = pure a := rfl

theorem forM_eq_pure {l : List α} {f : α → Action Unit} (h : ∀ a ∈ l, f a = pure ()) :
    l.forM f = pure () := by
  induction l with
  | nil => rfl
  | cons a rest ih =>
    obtain ⟨ha, hrest⟩ := List.forall_mem_cons.mp h
    rw [List.forM, ha, pure_bind, ih hrest]

/-- What is written is what the last step of the command says. -/
theorem outcome_written (least : Log.Level) (action : Action Product) :
    (action.outcome least).written = (action []).1.toOption.bind Product.written := by
  rw [outcome]
  rcases action [] with ⟨(_ | _) | product, log⟩
  · dsimp only
    split <;> rfl
  · rfl
  · rfl

end Action

/-! ### Printing a value -/

section Printing

variable [Host]

/-- The lines that a value is printed in; where there is no value nothing is printed. -/
def printed : Value → Action (List Text)
  | .unit => pure []
  | v => valueLines v

theorem valueLines_apply (v : Value) (log : List Log.Event) :
    valueLines v log =
      match Json.plain v >>= Json.render .indented with
      | .ok shown => (.ok [shown], log)
      | .error e => (.error (.failure e []), log) := by
  rw [valueLines, Action.bind_apply]
  cases Json.plain v with
  | error e => rfl
  | ok plain =>
    change (Action.lift (Json.render .indented plain) >>= fun shown => pure [shown]) log = _
    rw [Action.bind_apply]
    cases hshown : Json.render .indented plain with
    | error e => simp [Action.lift, bind, Except.bind, hshown]
    | ok shown => simp [Action.lift, bind, Except.bind, hshown]; rfl

theorem printed_eq_valueLines {v : Value} (h : v ≠ .unit) : printed v = valueLines v := by
  cases v with
  | unit => exact absurd rfl h
  | _ => rfl

/-- **A value is printed** where it has a JSON form, and nothing is noted. -/
theorem printed_of_hasJson {v : Value} (h : v.hasJson = true) (log : List Log.Event) :
    ∃ lines, printed v log = (.ok lines, log) := by
  by_cases hunit : v = .unit
  · subst hunit
    exact ⟨[], rfl⟩
  · obtain ⟨shown, hshown⟩ := (Json.render_plain_iff .indented v).mpr h
    exact ⟨[shown], by rw [printed_eq_valueLines hunit, valueLines_apply, hshown]⟩

/-- A value without a JSON form is not printed, and stops the command. -/
theorem printed_of_not_hasJson {v : Value} (h : v.hasJson = false) (log : List Log.Event) :
    ∃ e, printed v log = (.error (.failure e []), log) := by
  have hunit : v ≠ .unit := by
    rintro rfl
    cases h
  rw [printed_eq_valueLines hunit, valueLines_apply]
  cases hshown : Json.plain v >>= Json.render .indented with
  | ok shown => exact absurd ((Json.render_plain_iff .indented v).mp ⟨shown, hshown⟩) (by simp [h])
  | error e => exact ⟨e, rfl⟩

/-! ### Reading files -/

theorem runScript_apply (engine : Engine) (path : Text) (contents : Bytes) (s : Scope) (m : Memory)
    (log : List Log.Event) :
    runScript engine path contents s m log =
      match fileText contents with
      | .error e => (.error (.failure e []), log)
      | .ok t =>
        match engine.run t s ⟨m, []⟩ with
        | (.ok (v, s), machine) =>
          (.ok (v, s, machine.memory), log ++ [.running path] ++ machine.log)
        | (.error e, machine) =>
          (.error (.failure e []), log ++ [.running path] ++ machine.log) := by
  rw [runScript, Action.bind_apply]
  cases fileText contents <;> rfl

end Printing

theorem existing_eq_pure {disk : Disk} {path : Text} {contents : Bytes}
    (h : disk path = .file contents) : existing disk path = pure contents := by
  rw [existing, h]

/-! ### Running a script to save what it makes -/

/-- **A command line that runs a script against a dump and saves what becomes of it**: how it is
read, and what is found on the disk. -/
structure Saving [Host] (disk : Disk) (args : List Text) where
  /-- What is read in front of the command. -/
  front : Arguments
  /-- What stands behind the name of the command, as it is typed. -/
  typed : List Text
  /-- What is read behind the name of the command. -/
  given : Arguments
  options : Options
  /-- What is noted when the options are read. -/
  notes : List Log.Event
  scriptPath : Text
  script : Bytes
  dumpPath : Text
  dump : Bytes
  /-- The address of the first byte of the dump. -/
  base : Int
  /-- The path to save to, as it is given. -/
  output : Text
  -- The command is named, and the options in front of it are read.
  front_eq : Arguments.parse (groupOptions.map OptionUsage.spec) false args = some front
  front_help : front.has "help" = false
  named : namedCommand? front.positional = some (.run, typed)
  options_eq : (configPath disk front >>= loadOptions disk) [] = (.ok options, notes)
  -- The command has a script, a dump, a base that is a number, and an output.
  given_eq : Arguments.parse (Name.run.options.map OptionUsage.spec) true typed = some given
  given_help : given.has "help" = false
  positional_eq : given.positional = [scriptPath]
  dumpPath_eq : given.value? "dump" = some dumpPath
  base_eq : Numeral.read? .marked ((given.value? "base").getD "0") = some base
  output_eq : given.value? "output" = some output
  output_ne : output ≠ []
  -- The script and the dump are there, and the output can be.
  script_eq : disk scriptPath = .file script
  dump_eq : disk dumpPath = .file dump
  writable : writeFault? disk (Path.tidy output) = none

namespace Saving

section Steps

variable [Host] {disk : Disk} {args : List Text} (job : Saving disk args)

/-- The memory that the script starts with. -/
def memory : Memory := ⟨job.dump, job.base, false, none⟩

/-- The scope that the script starts in: it has a name for the memory. -/
def scope (_ : Saving disk args) : Scope := Scope.empty.withConstant memoryName .memory

/-- **The script parses and runs to its end**: with this value of its last statement, and with
these bytes in memory then. -/
def Yields (v : Value) (bytes : Bytes) : Prop :=
  ∃ t s machine, fileText job.script = .ok t ∧
    (Engine.standard job.options).run t job.scope ⟨job.memory, []⟩ = (.ok (v, s), machine) ∧
      machine.memory.bytes = bytes

/-- The values of the options are as they should be: no option is given but those of the
command. -/
theorem checkValue_eq {name value : Text} (h : job.given.value? name = some value) :
    checkValue disk name value = pure () := by
  obtain ⟨spec, hspec, rfl⟩ := Arguments.isListed_of_parse job.given_eq _
    (Arguments.mem_options_of_value? h)
  simp only [Name.options, helpUsage, List.map_cons, List.map_nil, List.mem_cons,
    List.not_mem_nil, or_false] at hspec
  rcases hspec with rfl | rfl | rfl | rfl
  · -- the dump
    cases h.symm.trans job.dumpPath_eq
    rw [checkValue, if_pos (Or.inr rfl), existing_eq_pure job.dump_eq, pure_bind]
  · -- its base
    have hbase := job.base_eq
    rw [h, Option.getD_some] at hbase
    rw [checkValue, if_neg (by decide), if_pos (Or.inr rfl), wholeNumber, hbase,
      Action.require_some, pure_bind]
  · -- where to save it
    rw [checkValue, if_neg (by decide), if_neg (by decide)]
  · -- the usage
    rw [checkValue, if_neg (by decide), if_neg (by decide)]

theorem checkValues_eq : checkValues disk job.given = pure () := by
  refine Action.forM_eq_pure fun name _ => ?_
  cases h : job.given.value? name with
  | none => rfl
  | some value => exact job.checkValue_eq h

/-- The script is run, its value printed, and only then what it has made is saved. -/
theorem runRun_eq : runRun disk job.options job.given = (do
    let m ← loadDump job.dumpPath job.dump job.base false
    let (v, _, m) ← runScript (.standard job.options) job.scriptPath job.script job.scope m
    let lines ← printed v
    Action.note [.saved m.bytes.length (Path.tidy job.output)]
    pure { output := lines, written := some (Path.tidy job.output, m.bytes) }) := by
  have houtput : ((some job.output).filter fun path => !path.isEmpty) = some job.output := by
    simp [job.output_ne]
  rw [runRun, job.checkValues_eq, job.positional_eq, job.dumpPath_eq, job.output_eq, houtput]
  simp only [baseOf, wholeNumber, job.base_eq, Action.require_some, pure_bind, List.head?_cons,
    List.length_singleton, if_true, existing_eq_pure job.script_eq, existing_eq_pure job.dump_eq,
    Option.isSome_some, Option.isNone_some, Bool.and_false, Bool.false_eq_true, if_false,
    job.writable]
  refine bind_congr fun m => bind_congr fun ⟨v, s, m⟩ => ?_
  -- `runRun` sees within its steps whether there is a value to print, `printed` by itself.
  cases v <;> rfl

variable {job}

theorem yields_iff {t : Text} {v v' : Value} {s : Scope} {machine : Machine} {bytes : Bytes}
    (ht : fileText job.script = .ok t)
    (hrun : (Engine.standard job.options).run t job.scope ⟨job.memory, []⟩ =
      (.ok (v, s), machine)) :
    job.Yields v' bytes ↔ v' = v ∧ bytes = machine.memory.bytes := by
  constructor
  · rintro ⟨t', s', machine', ht', hrun', rfl⟩
    cases ht.symm.trans ht'
    cases hrun.symm.trans hrun'
    exact ⟨rfl, rfl⟩
  · rintro ⟨rfl, rfl⟩
    exact ⟨t, s, machine, ht, hrun, rfl⟩

theorem not_yields {t : Text} {e : Error} {machine : Machine} (ht : fileText job.script = .ok t)
    (hrun : (Engine.standard job.options).run t job.scope ⟨job.memory, []⟩ = (.error e, machine))
    (v : Value) (bytes : Bytes) : ¬job.Yields v bytes := by
  rintro ⟨t', s', machine', ht', hrun', -⟩
  cases ht.symm.trans ht'
  cases hrun.symm.trans hrun'

variable (job)

theorem exists_yields {t : Text} (p : Value → Bool) (ht : fileText job.script = .ok t)
    (h : ((Engine.standard job.options).run t job.scope ⟨job.memory, []⟩).1.toOption.any
      (fun r => p r.1) = true) :
    ∃ v, p v = true ∧ job.Yields v
      ((Engine.standard job.options).run t job.scope ⟨job.memory, []⟩).2.memory.bytes := by
  obtain ⟨⟨v, s⟩, hrun, hv⟩ := (Option.any_eq_true _ _).mp h
  exact ⟨v, hv, t, s, _, ht, Prod.ext (eq_ok_of_toOption hrun) rfl, rfl⟩

/-- What the steps of the command write, from where the options are read. -/
theorem written_runRun (log : List Log.Event) (path : Text) (bytes : Bytes) :
    (runRun disk job.options job.given log).1.toOption.bind Product.written = some (path, bytes) ↔
      path = Path.tidy job.output ∧ ∃ v, job.Yields v bytes ∧ v.hasJson = true := by
  have hload : loadDump job.dumpPath job.dump job.base false log =
    (.ok job.memory, log ++ [.loaded job.dump.length job.dumpPath job.base]) := rfl
  rw [runRun_eq, Action.bind_apply, hload]
  dsimp only
  rw [Action.bind_apply, runScript_apply]
  cases ht : fileText job.script with
  | error e => exact ⟨nofun, fun ⟨_, _, ⟨_, _, _, ht', _⟩, _⟩ => nomatch ht.symm.trans ht'⟩
  | ok t =>
    dsimp only
    rcases hrun : (Engine.standard job.options).run t job.scope ⟨job.memory, []⟩ with
      ⟨e | ⟨v, s⟩, machine⟩
    · exact ⟨nofun, fun ⟨_, v, hv, _⟩ => absurd hv (not_yields ht hrun v bytes)⟩
    · simp only [yields_iff ht hrun]
      rw [Action.bind_apply]
      -- The step that saves is only reached behind the one that prints.
      cases hv : v.hasJson with
      | false =>
        obtain ⟨e, he⟩ := printed_of_not_hasJson hv _
        rw [he]
        exact ⟨nofun, fun ⟨_, v', ⟨hv', _⟩, hjson⟩ => absurd hjson (by simp [hv', hv])⟩
      | true =>
        obtain ⟨lines, hlines⟩ := printed_of_hasJson hv _
        rw [hlines]
        change some (Path.tidy job.output, machine.memory.bytes) = some (path, bytes) ↔ _
        rw [Option.some_inj, Prod.mk.injEq, eq_comm, @eq_comm _ machine.memory.bytes]
        exact and_congr_right' ⟨fun h => ⟨v, ⟨rfl, h⟩, hv⟩, fun ⟨_, ⟨_, h⟩, _⟩ => h⟩

/-- The command line is read, and then the script is run. -/
theorem written_run : (Command.run disk args).written =
    (runRun disk job.options job.given job.notes).1.toOption.bind Product.written := by
  have hperform : Name.run.perform disk job.options job.typed =
      runRun disk job.options job.given := by
    rw [Name.perform, job.given_eq, Action.require_some, pure_bind, job.given_help]
    rfl
  rw [Command.run, job.front_eq]
  dsimp only
  rw [job.front_help, if_neg Bool.false_ne_true, Action.outcome_written, job.named]
  dsimp only
  rw [← bind_assoc, Action.bind_apply, job.options_eq, ← hperform]

end Steps

/-! ### Plain command lines -/

/-- **Any script, dump, base and output** make such a command line, unless the path of the script
looks like an option. -/
def ofLine [Host] {disk : Disk} {scriptPath dumpPath base output : Text} {script dump : Bytes}
    {n : Int} (hend : scriptPath ≠ "--") (hoption : Arguments.isOption scriptPath = false)
    (hscript : disk scriptPath = .file script) (hdump : disk dumpPath = .file dump)
    (hbase : Numeral.read? .marked base = some n) (houtput : output ≠ [])
    (hwritable : writeFault? disk (Path.tidy output) = none) :
    Saving disk ["run", scriptPath, "-d", dumpPath, "--base", base, "-o", output] where
  front := ⟨[], ["run", scriptPath, "-d", dumpPath, "--base", base, "-o", output]⟩
  typed := [scriptPath, "-d", dumpPath, "--base", base, "-o", output]
  given := ⟨[("dump", dumpPath), ("base", base), ("output", output)], [scriptPath]⟩
  options := {}
  notes := []
  scriptPath := scriptPath
  script := script
  dumpPath := dumpPath
  dump := dump
  base := n
  output := output
  front_eq := Arguments.parse_command (by decide) rfl
  front_help := rfl
  named := rfl
  options_eq := rfl
  given_eq := by
    have hd : Arguments.optionOf (Name.run.options.map OptionUsage.spec) "-d" =
      some ([], some ("dump" : Text)) := by decide +kernel
    have hbase : Arguments.optionOf (Name.run.options.map OptionUsage.spec) "--base" =
      some ([], some ("base" : Text)) := by decide +kernel
    have ho : Arguments.optionOf (Name.run.options.map OptionUsage.spec) "-o" =
      some ([], some ("output" : Text)) := by decide +kernel
    rw [Arguments.parse_positional hend hoption, Arguments.parse_option (by decide) rfl hd,
      Arguments.parse_option (by decide) rfl hbase, Arguments.parse_option (by decide) rfl ho]
    rfl
  given_help := rfl
  positional_eq := rfl
  script_eq := hscript
  dumpPath_eq := rfl
  dump_eq := hdump
  base_eq := hbase
  output_eq := rfl
  output_ne := houtput
  writable := hwritable

/-! ### A dump of one byte -/

/-- A script next to a dump of one byte. -/
def nextToByte (script : Text) : Disk.Files :=
  [(["s.ml"], script.flatMap Encoding.utf8Bytes), (["d.bin"], [0])]

/-- The command line that runs the script against the byte, at 16, and saves it. -/
def byteLine : List Text := ["run", "s.ml", "-d", "d.bin", "--base", "0x10", "-o", "o.bin"]

def ofScript (script : Text) : Saving (Disk.ofFiles (nextToByte script)) byteLine :=
  ofLine (by decide) rfl rfl rfl (by decide +kernel : Numeral.read? .marked "0x10" = some 16)
    (by decide) rfl

theorem place_output_nextToByte (script : Text) :
    Disk.place (nextToByte script) (Path.tidy (ofScript script).output) = .ok ["o.bin"] := rfl

theorem place_dump_ne_place_output (script : Text) :
    Disk.place (nextToByte script) (ofScript script).dumpPath ≠
      Disk.place (nextToByte script) (Path.tidy (ofScript script).output) := by
  have hdump : Disk.place (nextToByte script) (ofScript script).dumpPath = .ok ["d.bin"] := rfl
  rw [hdump, place_output_nextToByte, Ne, Except.ok.injEq]
  decide

theorem place_script_ne_place_output (script : Text) :
    Disk.place (nextToByte script) (ofScript script).scriptPath ≠
      Disk.place (nextToByte script) (Path.tidy (ofScript script).output) := by
  have hscript : Disk.place (nextToByte script) (ofScript script).scriptPath = .ok ["s.ml"] := rfl
  rw [hscript, place_output_nextToByte, Ne, Except.ok.injEq]
  decide

end Saving

/-! ### What is left on the disk -/

/-- The files after a command: it can write one, and does nothing else to them. -/
def Outcome.leaves (o : Outcome) (files : Disk.Files) : Disk.Files :=
  match o.written with
  | none => files
  | some (path, contents) => Disk.write files path contents

namespace Saving

/-- **What a script has made of a dump is saved** where the script parses and runs to its end and
its last value has a JSON form, and nowhere else: to the path given for it, just the bytes in
memory after the last statement. The dump stays as it is. -/
theorem saves [Host] {files : Disk.Files} {args : List Text}
    (job : Saving (Disk.ofFiles files) args)
    (apart : Disk.place files job.dumpPath ≠ Disk.place files (Path.tidy job.output)) :
    let outcome := Command.run (Disk.ofFiles files) args
    (∀ path bytes, outcome.written = some (path, bytes) ↔
      path = Path.tidy job.output ∧ ∃ v, job.Yields v bytes ∧ v.hasJson = true) ∧
    (∀ v bytes, job.Yields v bytes → v.hasJson = true →
      Disk.place files (Path.tidy job.output) ≠ .ok Disk.nullDevice →
      Disk.ofFiles (outcome.leaves files) (Path.tidy job.output) = .file bytes) ∧
    Disk.ofFiles (outcome.leaves files) job.dumpPath = .file job.dump := by
  intro outcome
  have hwritten : ∀ path bytes, outcome.written = some (path, bytes) ↔
      path = Path.tidy job.output ∧ ∃ v, job.Yields v bytes ∧ v.hasJson = true := by
    intro path bytes
    rw [job.written_run]
    exact job.written_runRun job.notes path bytes
  refine ⟨hwritten, ?_, ?_⟩
  · intro v bytes hv hjson hdevice
    rw [Outcome.leaves, (hwritten _ bytes).mpr ⟨rfl, v, hv, hjson⟩]
    exact Disk.ofFiles_write_self job.writable hdevice
  · rw [Outcome.leaves]
    split
    · exact job.dump_eq
    next path bytes h =>
      rw [((hwritten path bytes).mp h).1]
      exact Disk.ofFiles_write_of_ne job.dump_eq apart

/-- A script stores seven in the byte of a dump: that is saved, and the dump has still zero. -/
theorem saves_seven :
    let files := nextToByte "MEMORY.write(UInt8, 0x10, 7)"
    let job := ofScript "MEMORY.write(UInt8, 0x10, 7)"
    let outcome := Command.run (Disk.ofFiles files) byteLine
    Disk.place files job.dumpPath ≠ Disk.place files (Path.tidy job.output) ∧
      Disk.ofFiles (outcome.leaves files) "o.bin" = .file [7] ∧
      Disk.ofFiles (outcome.leaves files) "d.bin" = .file [0] := by
  intro files job outcome
  let result := (Engine.standard {}).run "MEMORY.write(UInt8, 0x10, 7)" job.scope ⟨job.memory, []⟩
  have hscript : fileText job.script = .ok "MEMORY.write(UInt8, 0x10, 7)" :=
    eq_ok_of_toOption (by decide +kernel)
  have hvalue : result.1.toOption.any (fun r => r.1.hasJson) = true := by decide +kernel
  have hbytes : result.2.memory.bytes = [7] := by decide +kernel
  have hdevice : Disk.place files (Path.tidy job.output) ≠ .ok Disk.nullDevice := by
    rw [place_output_nextToByte, Ne, Except.ok.injEq]
    decide
  obtain ⟨v, hjson, hyields⟩ := job.exists_yields Value.hasJson hscript hvalue
  have apart := place_dump_ne_place_output "MEMORY.write(UInt8, 0x10, 7)"
  have hsaved := job.saves apart
  exact ⟨apart, hsaved.2.1 v [7] (hbytes ▸ hyields) hjson hdevice, hsaved.2.2⟩

/-- **A script can run to its end and not be saved**: this one stores the same, and its last value
is the memory itself. That cannot be printed, and printing comes before saving. -/
theorem memory_not_saved :
    let files := nextToByte "MEMORY.write(UInt8, 0x10, 7); MEMORY"
    let job := ofScript "MEMORY.write(UInt8, 0x10, 7); MEMORY"
    let outcome := Command.run (Disk.ofFiles files) byteLine
    Disk.place files job.dumpPath ≠ Disk.place files (Path.tidy job.output) ∧
      Disk.place files job.scriptPath ≠ Disk.place files (Path.tidy job.output) ∧
      (∃ v, job.Yields v [7]) ∧
      outcome.ending = .escaped (.failure .badKind) ∧ outcome.written = none := by
  intro files job outcome
  let result := (Engine.standard {}).run "MEMORY.write(UInt8, 0x10, 7); MEMORY" job.scope
    ⟨job.memory, []⟩
  have hscript : fileText job.script = .ok "MEMORY.write(UInt8, 0x10, 7); MEMORY" :=
    eq_ok_of_toOption (by decide +kernel)
  have hvalue : result.1.toOption.any (fun _ => true) = true := by decide +kernel
  have hbytes : result.2.memory.bytes = [7] := by decide +kernel
  obtain ⟨v, -, hyields⟩ := job.exists_yields (fun _ => true) hscript hvalue
  exact ⟨place_dump_ne_place_output _, place_script_ne_place_output _, ⟨v, hbytes ▸ hyields⟩,
    by decide +kernel, by decide +kernel⟩

end Saving

end TypedMemory.Command
