import TypedMemory.Codec.Check

/-!
# Writing values

A value written to memory by the layout it is to have there. Whole numbers and
addresses are taken modulo the width of their slot, and a text is filled up with zeros.
A pointer is **followed**: the value goes where the stored address points, and the
pointer itself stays.

The slots are written one after another, in the order of offsets and elements. A slot
that fails ends the writing, and what was written before it stays; that is why a value
is checked as a whole first, so that only the memory itself can still refuse.
-/

namespace TypedMemory.Codec

/-- A change of memory that may fail. What it did before failing stays done. -/
abbrev Update (α : Type) := ExceptT Error (StateM Memory) α

namespace Update

/-- Do what changes the memory as a whole, or fail and leave it. -/
def step (f : Memory → Except Error Memory) : Update Unit := fun m =>
  match f m with
  | .ok m' => (.ok (), m')
  | .error e => (.error e, m)

/-- Look at the memory. -/
def inspect {α : Type} (f : Memory → Except Error α) : Update α := fun m => (f m, m)

/-- Go on with a result that does not touch the memory. -/
def lift {α : Type} (r : Except Error α) : Update α := fun m => (r, m)

end Update

/-- A whole number modulo the width of a slot. -/
def wrapped (width : Nat) (n : Int) : Nat := (n % wordCount (8 * width)).toNat

/-- Write bytes into a slot of the given length. -/
def storeSlot (address : Int) (count : Nat) (data : Bytes) : Update Unit :=
  Update.step fun m => m.store address count data

variable [Host]

/-- Why a text cannot be filled up to so many bytes, if it cannot. -/
def fillingFault? (holds : Nat) : Option Error :=
  if rowLimit ≤ holds then some (.failure .tooLarge)
  else if Host.room ≤ holds then some (.failure .outOfMemory)
  else none

/-- Write a text, with zeros behind it, into a slot of so many bytes. -/
def storeText (encoding : Option Text) (address : Int) (holds : Nat) (t : Text) : Update Unit := do
  let coded ← Update.lift (encodeText encoding t)
  match fillingFault? holds with
  | some e => Update.lift (.error e)
  | none => storeSlot address (max holds coded.length) coded

/-- Write the items, each a stride behind the one before. -/
def storeEach (storeAt : Int → Value → Update Unit) (stride : Nat) :
    List Value → Int → Update Unit
  | [], _ => pure ()
  | v :: rest, address => do
    storeAt address v
    storeEach storeAt stride rest (address + stride)

/-- Write a value of the right shape at an address. -/
def store (options : Options) : Layout → Int → Value → Update Unit
  | .integer kind, address, v =>
    match v with
    | .int n =>
      storeSlot address kind.width (options.byteOrder.store kind.width (wrapped kind.width n))
    | _ => Update.lift (.error (.failure .badKind))
  | .float kind, address, v =>
    match v with
    | .int n => do
      let data ← Update.lift (integerAsFloatBytes options.byteOrder kind n)
      storeSlot address kind.width data
    | .float x _ => do
      let data ← Update.lift (floatBytes options.byteOrder kind x)
      storeSlot address kind.width data
    | _ => Update.lift (.error (.failure .badKind))
  | .rawAddress width, address, v =>
    match v with
    | .int n =>
      storeSlot address width.bytes (options.byteOrder.store width.bytes (wrapped width.bytes n))
    | .address n =>
      storeSlot address width.bytes (options.byteOrder.store width.bytes (wrapped width.bytes n))
    | _ => Update.lift (.error (.failure .badKind))
  | .pointer width inner, address, v => do
    let target ← Update.inspect fun m => m.loadNumber options.byteOrder address width.bytes
    store options inner target v
  | .text length, address, v =>
    match v with
    | .text t => storeText options.textEncoding address length t
    | _ => Update.lift (.error (.failure .badKind))
  | .wideText length, address, v =>
    match v with
    | .text t => storeText options.wideTextEncoding address (length * 2) t
    | _ => Update.lift (.error (.failure .badKind))
  | .struct fields, address, v =>
    match v with
    | .record entries => storeFields fields address entries
    | _ => Update.lift (.error (.failure .badKind))
  | .collection element _, address, v =>
    match v with
    | .array items => do
      let stride ← Update.lift element.size?
      storeEach (store options element) stride items address
    | _ => Update.lift (.error (.failure .badKind))
  | .foreign stray, _, _ => Update.lift (.error (Layout.refusal stray))
where
  /-- Write what the entries have for each field. -/
  storeFields : List (Field Layout) → Int → List (Entry Value) → Update Unit
  | [], _, _ => pure ()
  | f :: rest, address, entries =>
    match Value.lookup? entries f.name with
    | none => Update.lift (.error (.failure .badKind))
    | some v => do
      store options f.type (address + f.offset) v
      storeFields rest address entries

/-- **Write a value** at the address that a value gives, after checking it. -/
def write (options : Options) (l : Layout) (at_ : Value) (v : Value) : Update Unit := do
  Update.lift (check options l v)
  let address ← Update.lift at_.location
  store options l address v

end TypedMemory.Codec
