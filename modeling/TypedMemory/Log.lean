import TypedMemory.Numeral

/-!
# What is noted along the way

While it works the library notes what it does: which files it touches, which
declarations it meets, which slots it follows. A note has a level, the part of the
library it comes from, and a wording; who runs the library chooses the least level
that is told.
-/

namespace TypedMemory.Log

/-- How much a note matters. -/
inductive Level
  | debug
  | info
  | warning
  deriving DecidableEq

namespace Level

/-- The place of a level among all. -/
def rank : Level → Nat
  | debug => 0
  | info => 1
  | warning => 2

/-- The level as told. -/
def name : Level → Text
  | debug => "DEBUG"
  | info => "INFO"
  | warning => "WARNING"

end Level

/-- What is noted. -/
inductive Event
  | loaded (count : Nat) (path : Text) (base : Int)
  | saved (count : Nat) (path : Text)
  | running (path : Text)
  | evaluating (statements : Nat)
  | bound (name : Text)
  | declared (name : Text) (fields bytes : Nat)
  | readingStruct (fields : Nat) (address : Int)
  | readingItems (count : Nat) (kind : Text) (address : Int)
  /-- A write goes on where a stored address points. -/
  | followed (kind : Text) (address : Int) (target : Nat)
  | noOptions (path : Text)
  | unknownOptions (path : Text) (names : List Text)

namespace Event

open Numeral (decimal hex)

/-- How much the note matters. -/
def level : Event → Level
  | running _ => .info
  | unknownOptions _ _ => .warning
  | _ => .debug

/-- The part of the library the note comes from. -/
def source : Event → Text
  | loaded _ _ _ | saved _ _ => "memlayout.native.memory"
  | running _ => "memlayout.cli"
  | evaluating _ | bound _ => "memlayout.script.engine"
  | declared _ _ _ => "memlayout.script.compiler"
  | readingStruct _ _ | readingItems _ _ _ | followed _ _ _ => "memlayout.native.codec"
  | noOptions _ | unknownOptions _ _ => "memlayout.config"

/-- The wording of the note. -/
def message : Event → Text
  | loaded count path base =>
    "Loaded " ++ decimal count ++ " bytes from " ++ path ++ " at base " ++ hex base
  | saved count path => "Saved " ++ decimal count ++ " bytes to " ++ path
  | running path => "Running " ++ path
  | evaluating statements => "Evaluating " ++ decimal statements ++ " statements"
  | bound name => "let " ++ name
  | declared name fields bytes =>
    "Declared native " ++ name.ticked ++ " with " ++ decimal fields ++ " fields, " ++
      decimal bytes ++ " bytes"
  | readingStruct fields address =>
    "Reading struct of " ++ decimal fields ++ " fields at " ++ hex address
  | readingItems count kind address =>
    "Reading " ++ decimal count ++ " x " ++ kind ++ " at " ++ hex address
  | followed kind address target =>
    "Writing through " ++ kind ++ " at " ++ hex address ++ " to " ++ hex target
  | noOptions path => "No options file at " ++ path ++ ", using defaults"
  | unknownOptions path names =>
    "Ignoring unknown options in " ++ path ++ ": " ++ Text.join ", " names

/-- The note as one line. -/
def line (e : Event) : Text :=
  e.level.name ++ " " ++ e.source ++ ": " ++ e.message

end Event

/-- The lines of the notes from a level on. -/
def lines (least : Level) (events : List Event) : List Text :=
  (events.filter fun e => least.rank ≤ e.level.rank).map Event.line

end TypedMemory.Log
