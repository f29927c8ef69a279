import TypedMemory.Command.Run

/-!
# The program

Reads the files that the command line can name, hands them with the command line to
`Command.run`, and prints, tells and writes what comes out.
-/

open TypedMemory

/-- What is at a path, with a file to be made where nothing is found. The failure to read
tells what else is there: a directory, a file on the way, or a name that is too long. -/
def findNode (path : String) : IO Node := do
  try
    let contents ← IO.FS.readBinFile path
    pure (.file contents.toList)
  catch e =>
    match e with
    | .inappropriateType _ 20 _ => pure (.blocked .notADirectory)
    | .inappropriateType .. => pure .directory
    | .invalidArgument .. => pure (.blocked .nameTooLong)
    | _ => pure .vacant

/-- A text as a string, without what no string can hold. -/
def plainString (t : Text) : String :=
  String.ofList (t.filterMap CodePoint.toChar?)

/-- The paths that an argument can name: itself, and what is attached to an option in it. -/
def namedPaths (arg : Text) : List Text :=
  let attached := [arg, arg.drop 2, (arg.dropWhile (· ≠ ('=' : CodePoint))).drop 1]
  attached.flatMap fun path => [path, Path.tidy path]

/-- What is at a path. Without a directory to lie in nothing can be made there. -/
def findPath (path : Text) : IO Node := do
  match Path.fault? path with
  | some cause => pure (.unaskable cause)
  | none =>
    match ← findNode (plainString path), ← findNode (plainString (Path.parent path)) with
    | .vacant, .directory => pure .vacant
    | .vacant, _ => pure (.blocked .noSuchFile)
    | node, _ => pure node

/-- What is at the paths that the arguments can name. -/
def findNodes (args : List Text) : IO (List (Text × Node)) :=
  (args.flatMap namedPaths).eraseDups.mapM fun path => do
    let node ← findPath path
    pure (path, node)

def main (args : List String) : IO UInt32 := do
  let args := args.map Text.of
  let nodes ← findNodes args
  let outcome := Command.run (fun path => (nodes.lookup path).getD .vacant) args
  for line in outcome.output do
    IO.println (plainString line)
  for line in outcome.messages do
    IO.eprintln (plainString line)
  match outcome.ending with
  | .escaped e => IO.eprintln (plainString e.message)
  | .usage => IO.eprintln "Error: the command line makes no sense, try --help"
  | _ => pure ()
  match outcome.written with
  | some (path, bytes) => IO.FS.writeBinFile (plainString path) ⟨bytes.toArray⟩
  | none => pure ()
  pure outcome.exitCode.toUInt32
