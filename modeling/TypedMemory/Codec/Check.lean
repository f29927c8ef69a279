import TypedMemory.Codec.Access
import TypedMemory.Value.Address
import TypedMemory.Value.Render

/-!
# Checking values before they are written

Whether a value has the shape its layout asks for: the right kind of value for each
slot, every field of a struct among the entries of a record, as many items as a
collection has elements, and texts and numbers that can be coded and fit their slot.
A value given for a pointer is checked against what the pointer points to.

A value is checked as a whole **before** anything of it is written.
-/

namespace TypedMemory.Codec

variable [Host]

/-- The stored form of a floating point number. -/
def floatBytes (order : ByteOrder) (kind : FloatKind) (x : Binary64) : Except Error Bytes :=
  match kind with
  | .fp64 => .ok (order.store 8 x.bits.toNat)
  | .fp32 =>
    match x.toSingle? with
    | some n => .ok (order.store 4 n)
    | none => Error.fail (.encode (.hugeFloat x.render kind.name))

/-- The stored form of a whole number in a floating point slot. -/
def integerAsFloatBytes (order : ByteOrder) (kind : FloatKind) (n : Int) : Except Error Bytes :=
  -- Rounded twice, as a number of 64 bits first, also for a slot of 32 bits.
  match Binary64.ofInt? n with
  | none => Error.fail (.encode (.hugeInteger n kind.name))
  | some x =>
    match kind with
    | .fp64 => .ok (order.store 8 x.bits.toNat)
    | .fp32 =>
      match x.toSingle? with
      | some k => .ok (order.store 4 k)
      | none => Error.fail (.encode (.hugeFloat (Numeral.decimal n) kind.name))

/-- The coded form of a text, if it fits a slot of so many bytes. -/
def checkText (encoding : Option Text) (slot : Text) (holds : Nat) (t : Text) :
    Except Error Unit := do
  let coded ← encodeText encoding t
  if holds < coded.length then Error.fail (.shape (.textTooLong t.quoted slot coded.length holds))

/-- **Whether a value can be written** with this layout. -/
def check (options : Options) : Layout → Value → Except Error Unit
  | .integer kind, v =>
    match v with
    | .int _ => .ok ()
    | v => Error.fail (.shape (.notAnInteger kind.name v.slotKind))
  | .float kind, v =>
    match v with
    | .int n => (integerAsFloatBytes options.byteOrder kind n).map fun _ => ()
    | .float x _ => (floatBytes options.byteOrder kind x).map fun _ => ()
    | v => Error.fail (.shape (.notANumber kind.name v.slotKind))
  | .rawAddress width, v =>
    match v with
    | .int _ => .ok ()
    | .address _ => .ok ()
    | v => Error.fail (.shape (.notAnAddress (Layout.rawAddress width).kindName v.slotKind))
  | .pointer _ inner, v => check options inner v
  | .text length, v =>
    match v with
    | .text t => checkText options.textEncoding "Text" length t
    | v => Error.fail (.shape (.notAString "Text" v.slotKind))
  | .wideText length, v =>
    match v with
    | .text t => checkText options.wideTextEncoding "WideText" (length * 2) t
    | v => Error.fail (.shape (.notAString "WideText" v.slotKind))
  | .struct fields, v =>
    match v with
    | .record entries => checkFields fields entries
    | v => Error.fail (.shape (.notARecord v.slotKind))
  | .collection element count, v =>
    match v with
    | .array items =>
      if items.length = count then items.forM (check options element)
      else Error.fail (.shape (.wrongLength count items.length))
    | v => Error.fail (.shape (.notASequence v.slotKind))
  | .foreign stray, _ => .error (Layout.refusal stray)
where
  /-- Whether the entries have what each field asks for. -/
  checkFields : List (Field Layout) → List (Entry Value) → Except Error Unit
  | [], _ => .ok ()
  | f :: rest, entries =>
    match Value.lookup? entries f.name with
    | none => Error.fail (.shape (.missingField f.name))
    | some v => do
      check options f.type v
      checkFields rest entries

end TypedMemory.Codec
