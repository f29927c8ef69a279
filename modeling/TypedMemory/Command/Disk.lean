import TypedMemory.Encoding
import TypedMemory.Error

/-!
# Files by their paths

The commands see files through a function from paths to what is there. A path is a row
of names between slashes; a single point and an empty name stand for the place where they
are, two points for the directory above. A path is gone along name by name, and every
name but the last has to lead to a directory.

`Disk.ofFiles` is such a function for files in one directory and those below it. Around
them it has the directories that every system has, and the file without contents there.
-/

namespace TypedMemory

/-- What is found at a path. -/
inductive Node
  | file (contents : Bytes)
  | directory
  /-- Nothing yet: a file can be made here. -/
  | vacant
  /-- The path leads nowhere. -/
  | blocked (cause : Failure)
  /-- It cannot be asked what is there, for no file has such a path. -/
  | unaskable (cause : Failure)

/-- What is found at every path. -/
abbrev Disk := Text → Node

namespace Path

/-- The slash between names. -/
def slash : CodePoint := '/'

/-- The names between the slashes of a path. -/
def names : Text → List Text
  | [] => [[]]
  | c :: rest =>
    if c = slash then [] :: names rest
    else
      match names rest with
      | name :: more => (c :: name) :: more
      | [] => [[c]]

/-- The names of a path that lead somewhere. -/
def steps (path : Text) : List Text :=
  (names path).filter fun name => name ≠ [] ∧ name ≠ "."

/-- The slashes in front of a path that say where it begins: none, one, or exactly two. -/
def root (path : Text) : Text :=
  match (path.takeWhile (· = slash)).length with
  | 0 => []
  | 2 => [slash, slash]
  | _ => [slash]

/-- The path as it is shown, without names that lead nowhere. -/
def tidy (path : Text) : Text :=
  let shown := root path ++ Text.join [slash] (steps path)
  if shown.isEmpty then "." else shown

/-- The path of the directory that a tidy path lies in. -/
def parent (path : Text) : Text :=
  tidy (root path ++ Text.join [slash] (steps path).dropLast)

/-- Whether a code point stands for a single byte that is no text. -/
def isStrayByte (c : CodePoint) : Bool :=
  0xDC80 ≤ c.val && c.val ≤ 0xDCFF

/-- How many bytes a path or a name takes. -/
def byteCount (t : Text) : Nat :=
  (t.map fun c => if isStrayByte c then 1 else (Encoding.utf8Bytes c).length).foldl (· + ·) 0

/-- The most bytes that a path takes. -/
def longestPath : Nat := 4095

/-- The most bytes that a name in a path takes. -/
def longestName : Nat := 255

/-- Why no file has this path, if none has: it has to be bytes, and a NUL would end it. -/
def fault? (path : Text) : Option Failure :=
  if path.any fun c => c.isSurrogate && !isStrayByte c then some .surrogate
  else if path.any (·.val = 0) then some .badValue
  else none

end Path

namespace Disk

/-- Where something lies: the names from the working directory down. Above it there stand
two points for each step up, and away from it all the names from a slash on. -/
abbrev Place := List Text

/-- Files and where they lie. -/
abbrev Files := List (Place × Bytes)

/-- The name of the directory above. -/
def up : Text := ".."

/-- The name in front of every path that begins with a slash. -/
def topName : Text := "/"

/-- The place where such a path begins. -/
def top : Place := [topName]

/-- The directories that every system has. -/
def systemDirectories : List Place := [top, [topName, "dev"], [topName, "tmp"]]

/-- The file that is always empty, whatever is written to it. -/
def nullDevice : Place := [topName, "dev", "null"]

/-- The contents of the file at a place. -/
def contents? (files : Files) (place : Place) : Option Bytes :=
  if place = nullDevice then some [] else (files.find? fun f => f.1 = place).map (·.2)

/-- Whether there is a directory at a place. Those above the working directory are there,
whatever else they hold. -/
def isDirectory (files : Files) (place : Place) : Bool :=
  place.all (· = up) || systemDirectories.contains place ||
    files.any fun f => place.isPrefixOf f.1 && place ≠ f.1

/-- The directory above a directory. -/
def above (place : Place) : Place :=
  if place = top then top
  else if place.all (· = up) then up :: place
  else place.dropLast

/-- Go along the names of a path from a place on. -/
def walk (files : Files) : Place → List Text → Except Failure Place
  | place, [] => .ok place
  | place, name :: rest =>
    if !isDirectory files place then
      .error (if (contents? files place).isSome then .notADirectory else .noSuchFile)
    else if name = [] ∨ name = "." then walk files place rest
    else if name = up then walk files (above place) rest
    else if Path.longestName < Path.byteCount name then .error .nameTooLong
    else walk files (place ++ [name]) rest

/-- The place that a path leads to. -/
def place (files : Files) (path : Text) : Except Failure Place :=
  if path = [] then .error .noSuchFile
  else if Path.longestPath < Path.byteCount path then .error .nameTooLong
  else walk files (if Path.root path = [] then [] else top) (Path.names path)

/-- **The disk with the given files.** -/
def ofFiles (files : Files) : Disk := fun path =>
  match Path.fault? path with
  | some cause => .unaskable cause
  | none =>
    match place files path with
    | .error cause => .blocked cause
    | .ok place =>
      match contents? files place with
      | some contents => .file contents
      | none => if isDirectory files place then .directory else .vacant

/-- The files after one is written to a path that leads somewhere. -/
def write (files : Files) (path : Text) (contents : Bytes) : Files :=
  match place files path with
  | .error _ => files
  | .ok place =>
    if place = nullDevice then files
    else files.filter (fun f => f.1 ≠ place) ++ [(place, contents)]

/-- Whether a place is in the working directory or below it. -/
def isBelow (place : Place) : Bool :=
  place.head? ≠ some up && place.head? ≠ some topName

end Disk

end TypedMemory
