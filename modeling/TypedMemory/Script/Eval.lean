import TypedMemory.Codec.Trace
import TypedMemory.Script.Expr
import TypedMemory.Script.Functions
import TypedMemory.Script.Scope
import TypedMemory.Text.Literal
import TypedMemory.Value.Equal

/-!
# Evaluating expressions

An expression has a value in a scope. Its parts are evaluated first, from left to right;
the first that fails gives the failure of the whole. Evaluation can read and change the
one memory of the script, through the methods of the value that stands for it, and what
it did to memory before a failure stays done.

A failure that is about scripts, layouts or memory is told as it is. Any other comes out
as an evaluation error with the rule of the expression at which it was met.
-/

namespace TypedMemory

/-- What a script acts on: the memory, and the notes taken, in order. -/
structure Machine where
  memory : Memory
  log : List Log.Event

/-- An action of a script, which may fail. What it did before failing stays done. -/
abbrev Run (α : Type) := ExceptT Error (StateM Machine) α

namespace Run

/-- Go on with a result that does not touch the machine. -/
def lift {α : Type} (r : Except Error α) : Run α := fun m => (r, m)

/-- Take notes. -/
def note (events : List Log.Event) : Run Unit := fun m =>
  (.ok (), { m with log := m.log ++ events })

/-- Look at the memory, and take notes of it. -/
def inspect {α : Type} (notes : Memory → List Log.Event) (f : Memory → Except Error α) :
    Run α := fun m =>
  (f m.memory, { m with log := m.log ++ notes m.memory })

/-- Change the memory, and take notes of it. -/
def update {α : Type} (notes : Memory → List Log.Event) (f : Codec.Update α) :
    Run α := fun m =>
  let (result, memory) := f m.memory
  (result, { memory, log := m.log ++ notes m.memory })

/-- Tell a failure that is not about scripts as one met at the given rule. -/
def atRule {α : Type} (rule : Text) (action : Run α) : Run α := fun m =>
  match action m with
  | (.error e, m) => (.error (if e.isOwn then e else .during rule e), m)
  | result => result

end Run

namespace Expr

variable [Host]

/-! ### Literals and names -/

/-- The number that a row of decimal digits spells, within the limit. -/
def integerValue (digits : Text) : Except Error Value :=
  if digits.length ≤ Numeral.digitLimit then .ok (.int (Numeral.value 10 digits))
  else .error (.failure .longNumeral)

/-- The number behind the mark `0x`. -/
def hexValue (digits : Text) : Value :=
  .int (Numeral.value 16 (digits.drop 2))

/-- The number of digits with a point among them. -/
def decimalValue (digits : Text) : Value :=
  let whole := digits.takeWhile CodePoint.isDigit
  let places := digits.drop (whole.length + 1)
  .float (.ofDecimal (Numeral.value 10 (whole ++ places)) places.length) none

/-- The text of a string literal. -/
def stringValue (literal : Text) : Except Error Value :=
  match Text.ofLiteral literal with
  | .ok t => .ok (.text t)
  | .error .surrogate => .error (.failure .surrogate)
  | .error .nul => .error (.failure .badValue)
  | .error .malformed => .error (.failure .badLiteral)

/-- The value of a name: what the scope binds it to, else the layout of that name. -/
def variableValue (s : Scope) (name : Text) : Except Error Value :=
  match s.get? name with
  | some v => .ok v
  | none =>
    match Layout.primitive? name with
    | some l => .ok (.type l)
    | none => Value.refuse (.undefinedVariable name)

/-! ### Methods -/

/-- Read a value from memory. -/
def readMemory (options : Options) (l : Layout) (location : Nat) : Run Value :=
  Run.inspect (fun m => Codec.readNotes options m l location)
    (fun m => Codec.read options m l location)

/-- Write a value to memory. -/
def writeMemory (options : Options) (l : Layout) (location : Nat) (v : Value) : Run Value := do
  Run.update (fun m => Codec.writeNotes options l (.address location) v m)
    (Codec.write options l (.address location) v)
  pure .unit

/-- The reading method: of a layout at an address, or of what an address with a layout
points to. -/
def readMethod (options : Options) : List Value → Run Value
  | [.pointer target location _] => readMemory options target location
  | [.type l, place] => do
    let location ← Run.lift (place.expectLocation "read address")
    readMemory options l location
  | _ => Run.lift (Value.refuse .readArguments)

/-- The writing method: of a value with a layout at an address, or to where an address
with a layout points. -/
def writeMethod (options : Options) : List Value → Run Value
  | [.pointer target location _, v] => writeMemory options target location v
  | [.type l, place, v] => do
    let location ← Run.lift (place.expectLocation "write address")
    writeMemory options l location v
  | _ => Run.lift (Value.refuse .writeArguments)

/-- **The call of a method.** Only memory has methods. -/
def callMethod (options : Options) (target : Value) (name : Text) (arguments : List Value) :
    Run Value :=
  match target with
  | .memory =>
    if name = "read" then readMethod options arguments
    else if name = "write" then writeMethod options arguments
    else Run.lift (Value.refuse (.noMethod target.kind name))
  | v => Run.lift (Value.refuse (.noMethod v.kind name))

/-! ### Evaluation -/

/-- **The value of an expression** in a scope. -/
def eval (options : Options) (s : Scope) : Expr → Run Value
  | var name => Run.atRule (rule (var name)) (Run.lift (variableValue s name))
  | integer digits => Run.atRule (rule (integer digits)) (Run.lift (integerValue digits))
  | hexNumber digits => pure (hexValue digits)
  | decimal digits => pure (decimalValue digits)
  | string literal => Run.atRule (rule (string literal)) (Run.lift (stringValue literal))
  | bool b => pure (.bool b)
  | record entries => do
    let entries ← evalEntries entries
    pure (.ofEntries entries)
  | array items => do
    let items ← evalItems items
    pure (.array items)
  | call name arguments => do
    let values ← evalItems arguments
    Run.atRule (rule (call name arguments)) (Run.lift (Value.call name values))
  | member target name => do
    let v ← eval options s target
    Run.atRule (rule (member target name)) (Run.lift (v.member name))
  | methodCall target name arguments => do
    let v ← eval options s target
    let values ← evalItems arguments
    Run.atRule (rule (methodCall target name arguments)) (callMethod options v name values)
  | index target key => do
    let v ← eval options s target
    let k ← eval options s key
    Run.atRule (rule (index target key)) (Run.lift (v.part k))
  | neg operand => do
    let v ← eval options s operand
    Run.atRule (rule (neg operand)) (Run.lift v.negate)
  | add left right => do
    let v ← eval options s left
    let w ← eval options s right
    Run.atRule (rule (add left right)) (Run.lift (v.add w))
  | sub left right => do
    let v ← eval options s left
    let w ← eval options s right
    Run.atRule (rule (sub left right)) (Run.lift (v.sub w))
  | eq left right => do
    let v ← eval options s left
    let w ← eval options s right
    pure (.bool (v.equal w))
  | ne left right => do
    let v ← eval options s left
    let w ← eval options s right
    pure (.bool (!v.equal w))
where
  /-- The values of expressions from left to right. -/
  evalItems : List Expr → Run (List Value)
  | [] => pure []
  | e :: rest => do
    let v ← eval options s e
    let vs ← evalItems rest
    pure (v :: vs)
  /-- The values of the entries of a record, from left to right. -/
  evalEntries : List (Entry Expr) → Run (List (Entry Value))
  | [] => pure []
  | e :: rest => do
    let v ← eval options s e.value
    let vs ← evalEntries rest
    pure (⟨e.name, v⟩ :: vs)

end Expr

end TypedMemory
