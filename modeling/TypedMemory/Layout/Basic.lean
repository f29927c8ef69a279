import TypedMemory.Value.Basic

/-!
# Layouts

What a layout says about the bytes it stands for. A **struct** places named fields at
byte offsets that need not be contiguous, and a **collection** repeats one element a
fixed number of times, back to back. A **pointer** takes the room of an address and
remembers the layout of what it points to.

A value that was put in the place of a layout has no size and no name, and
`Layout.stray?` finds the one on which a size depends.
-/

namespace TypedMemory.Layout

/-! ### Size and name -/

/-- **The size in bytes.** A struct ends where the field with the greatest offset
ends: room between fields counts, room behind the last one does not. -/
def size : Layout → Nat
  | integer kind => kind.width
  | float kind => kind.width
  | rawAddress width => width.bytes
  | pointer width _ => width.bytes
  | text length => length
  | wideText length => length * 2
  | struct fields => fieldsSize fields
  | collection element count => count * element.size
  | foreign _ => 0
where
  /-- The end of the last field. -/
  fieldsSize : List (Field Layout) → Nat
  | [] => 0
  | [f] => f.offset + f.type.size
  -- Only the last field counts: an earlier one may well end behind it.
  | _ :: f :: rest => fieldsSize (f :: rest)

/-- The value, in the place of a layout, on which the size depends. -/
def stray? : Layout → Option Value
  | foreign v => some v
  | struct fields => lastStray? fields
  | collection element _ => element.stray?
  | _ => none
where
  /-- The value on which the end of the last field depends. -/
  lastStray? : List (Field Layout) → Option Value
  | [] => none
  | [f] => f.type.stray?
  | _ :: f :: rest => lastStray? (f :: rest)

/-- The name of the kind of layout, as scripts use it. -/
def kindName : Layout → Text
  | integer kind => kind.name
  | float kind => kind.name
  | rawAddress width => "Address" ++ width.bits
  | pointer width _ => "Pointer" ++ width.bits
  | text _ => "Text"
  | wideText _ => "WideText"
  | struct _ => "Struct"
  | collection _ _ => "Collection"
  -- What is no layout has no name among them.
  | foreign _ => []

/-- Whether something else was put in its place. -/
def isForeign : Layout → Bool
  | foreign _ => true
  | _ => false

/-- Whether nothing but layouts stands in the place of layouts, all the way down. -/
def isGenuine : Layout → Bool
  | pointer _ inner => inner.isGenuine
  | struct fields => fieldsGenuine fields
  | collection element _ => element.isGenuine
  | foreign _ => false
  | _ => true
where
  /-- The same for the layouts of fields. -/
  fieldsGenuine : List (Field Layout) → Bool
  | [] => true
  | f :: rest => f.type.isGenuine && fieldsGenuine rest

/-- Whether it is a struct. -/
def isStruct : Layout → Bool
  | struct _ => true
  | _ => false

/-! ### Looking up fields -/

/-- The fields of a struct, none for any other layout. -/
def fields : Layout → List (Field Layout)
  | struct fields => fields
  | _ => []

/-- The first field of this name. -/
def fieldNamed? (l : Layout) (name : Text) : Option (Field Layout) :=
  l.fields.find? fun f => f.name = name

/-- The field at exactly this offset. -/
def fieldAt? (l : Layout) (offset : Int) : Option (Field Layout) :=
  l.fields.find? fun f => (f.offset : Int) = offset

/-! ### The fixed types -/

/-- The layouts that have a name of their own in scripts. -/
def primitives : List Layout :=
  IntegerKind.all.map integer ++ [float .fp32, float .fp64] ++
    [rawAddress .narrow, rawAddress .wide]

/-- The layout with this name, among those that have one. -/
def primitive? (name : Text) : Option Layout :=
  primitives.find? fun l => l.kindName = name

end TypedMemory.Layout
