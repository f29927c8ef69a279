import TypedMemory.Json.Render
import TypedMemory.Value.Equal

/-!
# Layout reports

Where each field of a struct lies, how large it is, and which bytes no field covers.

The fields are gone through by ascending offset with a cursor at the greatest end so
far. What lies between the cursor and the next field is that field's **gap**, and a
field that starts before the cursor has none. A struct is **packed** when every one of
its bytes is covered by some field.
-/

namespace TypedMemory

/-- Where one field of a struct lies. -/
structure FieldReport where
  name : Text
  offset : Nat
  size : Nat
  /-- The offset behind the field. -/
  stop : Nat
  /-- The layout of the field, in script form. -/
  type : Text
  /-- The bytes between what was covered before and this field. -/
  gap : Nat

/-- Where the fields of a struct lie. -/
structure LayoutReport where
  name : Text
  size : Nat
  /-- The bytes that no field covers. -/
  padding : Nat
  fields : List FieldReport

namespace LayoutReport

variable [Host]

/-- The reports on fields, with the cursor at the greatest end before them. -/
def fieldReports : Nat → List (Field Layout) → Except Error (List FieldReport)
  | _, [] => .ok []
  | cursor, f :: rest => do
    let size ← f.type.size?
    let type ← f.type.describe
    let stop := f.offset + size
    let more ← fieldReports (max cursor stop) rest
    pure (⟨f.name, f.offset, size, stop, type, f.offset - cursor⟩ :: more)

/-- How many bytes the fields cover from the cursor on. -/
def covered : Nat → List FieldReport → Nat
  | _, [] => 0
  | cursor, f :: rest => (f.stop - max f.offset cursor) + covered (max cursor f.stop) rest

/-- What a value can be taken apart into: the letters of a text, bytes, the items of an
array, the names of a record. A struct gives its fields, which are no values. -/
def parts? : Value → Option (List Value)
  | .text t => some (t.map fun c => .text [c])
  | .bytes data => some (data.map fun b => .int b.toNat)
  | .array items => some items
  | .record entries => some (entries.map fun e => .text e.name)
  | .type (.struct fields) => some (fields.map fun _ => .unit)
  | _ => none

/-- Why there is no report on a value in the place of a struct. Its first part is taken for
a field, a pair of an offset and of something with a layout and a name. -/
def refusal (v : Value) : Error :=
  match parts? v with
  | none => .failure .badKind
  | some [] => Layout.refusal v
  | some (first :: _) =>
    match parts? first with
    | none => .failure .badKind
    -- An address has a layout, but no name.
    | some [offset, .pointer target _ _] =>
      match target.size?, offset.number? with
      | .error e, _ => e
      | .ok _, some _ => .failure .noAttribute
      | .ok _, none => .failure .badKind
    | some [_, _] => .failure .noAttribute
    | some _ => .failure .badValue

/-- **The report on a struct**, under the given name. No other layout has fields to
report on. -/
def ofStruct (name : Text) (l : Layout) : Except Error LayoutReport :=
  match l with
  | .struct members => do
    let fields ← fieldReports 0 members
    let size ← l.size?
    pure ⟨name, size, size - covered 0 fields, fields⟩
  | .foreign v => .error (refusal v)
  | _ => .error (.failure .badKind)

/-- Whether every byte is covered by some field. -/
def isPacked (r : LayoutReport) : Bool := r.padding == 0

/-- The report on a field as a record. -/
def fieldRecord (f : FieldReport) : Value :=
  .record [
    ⟨"name", .text f.name⟩, ⟨"offset", .int f.offset⟩, ⟨"size", .int f.size⟩,
    ⟨"end", .int f.stop⟩, ⟨"type", .text f.type⟩, ⟨"padding_before", .int f.gap⟩]

/-- The report as a record. -/
def toRecord (r : LayoutReport) : Value :=
  .record [
    ⟨"name", .text r.name⟩, ⟨"size", .int r.size⟩, ⟨"padding", .int r.padding⟩,
    ⟨"fields", .array (r.fields.map fieldRecord)⟩]

/-- The report as JSON on one line. -/
def toJson (r : LayoutReport) : Except Error Text :=
  Json.render .inline r.toRecord

end LayoutReport

end TypedMemory
