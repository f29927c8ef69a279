import TypedMemory.Layout.Build
import TypedMemory.Value.Basic

/-!
# Addresses

Addresses are not negative, and whole numbers used with them count by their
**magnitude**: the address of `-4` is the address of `4`, and moving an address by `-4`
moves it up by four. Scripts rely on that.
-/

namespace TypedMemory.Value

variable [Host]

/-- What kind of value was given in place of an address. -/
def addressKind : Value → Text
  | unit => "NoneType"
  | v => v.slotKind

/-- The location that a value gives: of an address its own, of a whole number its
magnitude. -/
def location : Value → Except Error Nat
  | address location => .ok location
  | int n => .ok n.natAbs
  | v => Error.fail (.notAnAddress v.addressKind)

/-- An address given by a number, which must not be negative. -/
def ofLocation (n : Int) : Except Error Value :=
  (Layout.natural "Address" n).map address

/-- An address with a layout, given by a number, which must not be negative. -/
def ofTarget (target : Layout) (n : Int) : Except Error Value :=
  (Layout.natural "Address" n).map (pointer target · none)

/-- An address, with or without a layout, moved up by the magnitude of a number. -/
def moved? : Value → Int → Option Value
  | address location, n => some (address (location + n.natAbs))
  | pointer target location _, n => some (pointer target (location + n.natAbs) none)
  | _, _ => none

/-- An address plus a value, which has to be a whole number. -/
def plus (v w : Value) : Except Error Value :=
  match w with
  | int n =>
    match v.moved? n with
    | some moved => .ok moved
    | none => .error (.failure .badKind)
  | _ => .error (.failure .badKind)

end TypedMemory.Value
