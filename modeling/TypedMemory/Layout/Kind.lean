import TypedMemory.Text

/-!
# Kinds of slots

The numbers and addresses that a slot of memory can hold, each with its width in bytes
and with the name that scripts have for it.
-/

namespace TypedMemory

/-- The whole numbers a slot can hold. -/
inductive IntegerKind
  | uint8
  | uint16
  | uint32
  | uint64
  | int32
  | int64
  deriving DecidableEq

namespace IntegerKind

/-- The width in bytes. -/
def width : IntegerKind → Nat
  | uint8 => 1
  | uint16 => 2
  | uint32 | int32 => 4
  | uint64 | int64 => 8

/-- Whether the top bit of the slot counts negatively. -/
def signed : IntegerKind → Bool
  | int32 | int64 => true
  | _ => false

/-- The name in scripts. -/
def name : IntegerKind → Text
  | uint8 => "UInt8"
  | uint16 => "UInt16"
  | uint32 => "UInt32"
  | uint64 => "UInt64"
  | int32 => "Int32"
  | int64 => "Int64"

/-- Every kind of whole number. -/
def all : List IntegerKind := [uint8, uint16, uint32, uint64, int32, int64]

/-- The kind with this width in bytes, if there is one. -/
def ofWidth? (signed : Bool) (width : Int) : Option IntegerKind :=
  all.find? fun kind => kind.signed == signed && (kind.width : Int) == width

end IntegerKind

/-- The floating point numbers a slot can hold. -/
inductive FloatKind
  | fp32
  | fp64
  deriving DecidableEq

namespace FloatKind

/-- The width in bytes. -/
def width : FloatKind → Nat
  | fp32 => 4
  | fp64 => 8

/-- The name in scripts. -/
def name : FloatKind → Text
  | fp32 => "Fp32"
  | fp64 => "Fp64"

end FloatKind

/-- How wide a stored address is. -/
inductive AddressWidth
  | narrow
  | wide
  deriving DecidableEq

namespace AddressWidth

/-- The width in bytes. -/
def bytes : AddressWidth → Nat
  | narrow => 4
  | wide => 8

/-- The width in bits, as names show it. -/
def bits : AddressWidth → Text
  | narrow => "32"
  | wide => "64"

/-- The width of so many bytes, if addresses can have it. -/
def ofBytes? (width : Int) : Option AddressWidth :=
  if width = 4 then some narrow else if width = 8 then some wide else none

end AddressWidth

end TypedMemory
