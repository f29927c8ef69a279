import TypedMemory.Error
import TypedMemory.Layout.Basic

/-!
# Building layouts

A layout can be asked for with parts that no layout has: a width that does not exist,
a negative length or count, a field below offset zero. The functions here check the
part and give the layout or the failure.

A struct is built from **placements** in any order. Of two fields at one offset the
later one stays, and the fields end up by ascending offset, so the order of the rest
does not matter. A `StructBuilder` takes placements one at a time, and may refuse a
second field at an offset instead of replacing the first.
-/

namespace TypedMemory

namespace Layout

/-- The slot of this width for whole numbers. -/
def integerOfWidth (signed : Bool) (width : Int) : Except Error Layout :=
  match IntegerKind.ofWidth? signed width with
  | some kind => .ok (integer kind)
  | none => Error.fail (.invalid (.noInteger signed width))

/-- A width in bytes of an address, or the failure that names what was to have it. -/
def addressWidth (what : Text) (width : Int) : Except Error AddressWidth :=
  match AddressWidth.ofBytes? width with
  | some w => .ok w
  | none => Error.fail (.invalid (.width what width))

/-- The slot of this width for floating point numbers. -/
def floatOfWidth (width : Int) : Except Error Layout :=
  (addressWidth "Float" width).map fun
    | .narrow => float .fp32
    | .wide => float .fp64

/-- The slot of this width for a bare address. -/
def rawAddressOfWidth (width : Int) : Except Error Layout :=
  (addressWidth "Address" width).map rawAddress

/-- The slot of this width for an address of the given layout. -/
def pointerOfWidth (width : Int) (inner : Layout) : Except Error Layout :=
  (addressWidth "Pointer" width).map (pointer · inner)

/-- A number that must not be negative. -/
def natural (what : Text) (n : Int) : Except Error Nat :=
  if n < 0 then Error.fail (.invalid (.negative what n)) else .ok n.toNat

/-- Text in this many bytes. -/
def textOfLength (length : Int) : Except Error Layout :=
  (natural "Text length" length).map text

/-- Text in this many 16-bit units. -/
def wideTextOfLength (length : Int) : Except Error Layout :=
  (natural "WideText length" length).map wideText

/-- This many of the element. -/
def collectionOfCount (element : Layout) (count : Int) : Except Error Layout :=
  (natural "Collection count" count).map (collection element)

end Layout

/-! ### Structs -/

/-- A field asked for at an offset that may be anything. -/
structure Placement where
  offset : Int
  name : Text
  type : Layout

namespace Placement

/-- Insert a placement into an ascending list, in place of one at its offset. -/
def insert (p : Placement) : List Placement → List Placement
  | [] => [p]
  | q :: rest =>
    if p.offset < q.offset then p :: q :: rest
    else if p.offset = q.offset then p :: rest
    else q :: insert p rest

/-- The placements by ascending offset, the last one at each. -/
def arrange (placements : List Placement) : List Placement :=
  placements.foldl (fun placed p => insert p placed) []

/-- The field of a placement at an offset that is not negative. -/
def field (p : Placement) : Field Layout :=
  ⟨p.offset.toNat, p.name, p.type⟩

end Placement

namespace Layout

/-- The struct of placements that are arranged already, refused for a negative
offset. -/
def ofArranged (placed : List Placement) : Except Error Layout :=
  -- The order is ascending, so the first one below zero is the lowest.
  match placed.find? (·.offset < 0) with
  | some p => Error.fail (.invalid (.negative "Field offset" p.offset))
  | none => .ok (struct (placed.map Placement.field))

/-- **The struct of the given placements**, in any order. -/
def ofPlacements (placements : List Placement) : Except Error Layout :=
  ofArranged (Placement.arrange placements)

end Layout

/-- What happens to a second field at an offset. -/
inductive OverlapPolicy
  /-- It takes the place of the first. -/
  | replace
  /-- It is refused. -/
  | reject
  deriving DecidableEq

/-- The name of a policy in options. -/
def OverlapPolicy.name : OverlapPolicy → Text
  | replace => "replace"
  | reject => "reject"

/-- The policy of this name. -/
def OverlapPolicy.ofName? (name : Text) : Option OverlapPolicy :=
  [replace, reject].find? fun policy => policy.name = name

/-- A struct in the making: its policy, and its placements by ascending offset. -/
structure StructBuilder where
  policy : OverlapPolicy
  placed : List Placement

namespace StructBuilder

/-- A builder without fields. -/
def empty (policy : OverlapPolicy) : StructBuilder := ⟨policy, []⟩

/-- The placement at this offset. -/
def at? (b : StructBuilder) (offset : Int) : Option Placement :=
  b.placed.find? fun p => p.offset = offset

/-- The builder with one more field. -/
def insert (b : StructBuilder) (p : Placement) : Except Error StructBuilder :=
  match b.policy, b.at? p.offset with
  | .reject, some old => Error.fail (.overlap p.name old.name p.offset)
  | _, _ => .ok { b with placed := p.insert b.placed }

/-- The finished struct. -/
def build (b : StructBuilder) : Except Error Layout :=
  Layout.ofArranged b.placed

end StructBuilder

end TypedMemory
