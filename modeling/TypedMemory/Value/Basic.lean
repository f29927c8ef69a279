import TypedMemory.Binary64
import TypedMemory.Host
import TypedMemory.Layout.Kind

/-!
# Layouts and values

A **layout** says how a value lies in memory: a number of some width, a text of fixed
length, an address, or an arrangement of smaller layouts. A **value** is what scripts
compute with and what memory is read into: truth values, whole numbers of any size,
floating point numbers, texts, arrays and records of values, addresses, layouts, and the
memory a script works on, of which there is one and which is therefore only named.

The two hold each other, and so they are one definition. An address can remember the
layout of what lies there, and a layout is a value like any other; and where a layout is
expected any value may have been put, which is then kept as it is, as `Layout.foreign`.

A floating point number that is **not a number** equals nothing, not even itself, and so
does an address with such a thing in the place of its layout. Still each is the same as
itself. So it can carry a **tag**, by which it is known from all others; scopes give the
tags out, to what is bound in them.
-/

namespace TypedMemory

/-- A named value. -/
structure Entry (α : Type) where
  name : Text
  value : α

/-- A named member of a struct: where it starts, and what lies there. -/
structure Field (α : Type) where
  offset : Nat
  name : Text
  type : α

mutual

/-- How a value lies in memory. -/
inductive Layout
  | integer (kind : IntegerKind)
  | float (kind : FloatKind)
  /-- An address read back as a bare handle. -/
  | rawAddress (width : AddressWidth)
  /-- An address together with the layout of what lies there. -/
  | pointer (width : AddressWidth) (inner : Layout)
  /-- Text in a fixed number of bytes. -/
  | text (length : Nat)
  /-- Text in a fixed number of 16-bit units. -/
  | wideText (length : Nat)
  /-- Named fields, by ascending offset. -/
  | struct (fields : List (Field Layout))
  | collection (element : Layout) (count : Nat)
  /-- No layout at all, but what was put in the place of one. -/
  | foreign (v : Value)

/-- What a script computes with. -/
inductive Value
  /-- No value, as a statement that only acts has. -/
  | unit
  | bool (b : Bool)
  | int (n : Int)
  /-- A floating point number, with the tag that it was given. -/
  | float (x : Binary64) (tag : Option Nat)
  | text (t : Text)
  | array (items : List Value)
  /-- Named values, each name once, in the order they came in. -/
  | record (entries : List (Entry Value))
  | address (location : Nat)
  /-- An address together with the layout of what lies there, and with the tag that it was
  given. -/
  | pointer (target : Layout) (location : Nat) (tag : Option Nat)
  | type (layout : Layout)
  | bytes (data : Bytes)
  /-- The memory the script works on. -/
  | memory

end

instance : Inhabited Layout := ⟨.struct []⟩

namespace Value

instance : Inhabited Value := ⟨unit⟩

/-! ### Records -/

/-- The value of this name. -/
def lookup? (entries : List (Entry Value)) (name : Text) : Option Value :=
  (entries.find? fun e => e.name = name).map Entry.value

/-- The entries with this name bound to the value: in its place if the name is there,
else at the end. -/
def bind (entries : List (Entry Value)) (name : Text) (v : Value) : List (Entry Value) :=
  match entries with
  | [] => [⟨name, v⟩]
  | e :: rest => if e.name = name then ⟨name, v⟩ :: rest else e :: bind rest name v

/-- The record of the given entries. Where a name comes twice the last value counts. -/
def ofEntries (entries : List (Entry Value)) : Value :=
  record (entries.foldl (fun bound e => bind bound e.name e.value) [])

/-! ### Kinds -/

/-- The kind of a value as scripts name it. -/
def kind [Host] : Value → Text
  | unit => "()"
  | bool _ => "bool"
  | int _ => "int"
  | float _ _ => "float"
  | text _ => "str"
  | array _ => "array"
  | record _ => "record"
  | address _ => "Address"
  | pointer _ _ _ => "Pointer"
  | type _ => "Type"
  | bytes _ => "bytes"
  | memory => Host.memoryKind

/-- The kind of a value in messages about memory slots. -/
def slotKind [Host] : Value → Text
  | unit => "nothing"
  | array _ => "list"
  | record _ => "dict"
  | pointer _ _ _ => "TypedPointer"
  | type (.integer _) => "Integer"
  | type (.float _) => "Float"
  | type (.rawAddress _) => "RawAddress"
  | type (.pointer _ _) => "Pointer"
  | type (.text _) => "Text"
  | type (.wideText _) => "WideText"
  | type (.struct _) => "Struct"
  | type (.collection _ _) => "Collection"
  | v => v.kind

end Value

/-! ### Values in the place of layouts -/

/-- A layout, where any value may have been put. -/
def Value.toLayout : Value → Layout
  | .type l => l
  | v => .foreign v

/-- A layout as a value; what was put in the place of one is itself again. -/
def Layout.toValue : Layout → Value
  | .foreign v => v
  | l => .type l

/-! ### Tags -/

/-- Whether a value does not equal itself, so that only a tag tells it from others. -/
def Value.isUnequal : Value → Bool
  | .float x _ => x.isNaN
  | .pointer (.foreign v) _ _ => v.isUnequal
  | _ => false

/-- The tag of a value that has one. -/
def Value.tag? : Value → Option Nat
  | .float _ tag => tag
  | .pointer _ _ tag => tag
  | _ => none

/-- The tag of a value: its own, else the next one if the value needs it. -/
def giveTag (tag : Option Nat) (needed : Bool) : StateM Nat (Option Nat) := fun next =>
  if tag.isNone && needed then (some next, next + 1) else (tag, next)

mutual

/-- The layout with a tag for whatever in it needs one. -/
def Layout.tagged : Layout → StateM Nat Layout
  | .pointer width inner => return .pointer width (← inner.tagged)
  | .struct fields => return .struct (← Layout.fieldsTagged fields)
  | .collection element count => return .collection (← element.tagged) count
  | .foreign v => return .foreign (← v.tagged)
  | l => return l

/-- The fields with a tag for whatever in them needs one. -/
def Layout.fieldsTagged : List (Field Layout) → StateM Nat (List (Field Layout))
  | [] => return []
  | f :: rest => do
    let type ← f.type.tagged
    let fields ← Layout.fieldsTagged rest
    return ⟨f.offset, f.name, type⟩ :: fields

/-- **The value with a tag** for whatever in it does not equal itself and has none yet. -/
def Value.tagged : Value → StateM Nat Value
  | .float x tag => return .float x (← giveTag tag x.isNaN)
  | .array items => return .array (← Value.itemsTagged items)
  | .record entries => return .record (← Value.entriesTagged entries)
  | .pointer target location tag => do
    let tag ← giveTag tag (Value.pointer target location tag).isUnequal
    return .pointer (← target.tagged) location tag
  | .type layout => return .type (← layout.tagged)
  | v => return v

/-- The items with a tag for whatever in them needs one. -/
def Value.itemsTagged : List Value → StateM Nat (List Value)
  | [] => return []
  | v :: rest => do
    let v ← v.tagged
    let items ← Value.itemsTagged rest
    return v :: items

/-- The entries with a tag for whatever in them needs one. -/
def Value.entriesTagged : List (Entry Value) → StateM Nat (List (Entry Value))
  | [] => return []
  | e :: rest => do
    let v ← e.value.tagged
    let entries ← Value.entriesTagged rest
    return ⟨e.name, v⟩ :: entries

end

end TypedMemory
