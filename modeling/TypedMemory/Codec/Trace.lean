import TypedMemory.Codec.Read
import TypedMemory.Codec.Write
import TypedMemory.Log

/-!
# What reading and writing note

The notes of the codec, as functions of their own beside reading and writing: each
struct and each collection that is read is noted as it is entered, and each pointer
that a write follows. Nothing is noted behind the first failure, so the notes ask at
each step whether the reading or writing so far went well.
-/

namespace TypedMemory.Codec

variable [Host]

open Log (Event)

/-- The notes on so many values, each a stride behind the one before. -/
def notesOnEach (notesAt : Int → List Event) (readAt : Int → Except Error Value)
    (stride : Nat) : Nat → Int → List Event
  | 0, _ => []
  | count + 1, address =>
    notesAt address ++
      match readAt address with
      | .ok _ => notesOnEach notesAt readAt stride count (address + stride)
      | .error _ => []

/-- The notes on reading a value at an address. -/
def readNotes (options : Options) (m : Memory) : Layout → Int → List Event
  | .struct fields, address =>
    .readingStruct fields.length address :: fieldNotes fields address
  | .collection element count, address =>
    if Numeral.isSpellable count && !element.isForeign then
      .readingItems count element.kindName address ::
        match element.size? with
        | .ok stride =>
          notesOnEach (readNotes options m element) (read options m element) stride count address
        | .error _ => []
    else []
  | _, _ => []
where
  /-- The notes on the fields of a struct. -/
  fieldNotes : List (Field Layout) → Int → List Event
  | [], _ => []
  | f :: rest, address =>
    readNotes options m f.type (address + f.offset) ++
      match read options m f.type (address + f.offset) with
      | .ok _ => fieldNotes rest address
      | .error _ => []

/-- The notes on writing the items of an array, and the memory before each. -/
def notesOnStoring (notesAt : Int → Value → Memory → List Event)
    (storeAt : Int → Value → Update Unit) (stride : Nat) :
    List Value → Int → Memory → List Event
  | [], _, _ => []
  | v :: rest, address, m =>
    notesAt address v m ++
      match storeAt address v m with
      | (.ok _, m') => notesOnStoring notesAt storeAt stride rest (address + stride) m'
      | (.error _, _) => []

/-- The notes on writing a value of the right shape at an address. -/
def storeNotes (options : Options) : Layout → Int → Value → Memory → List Event
  | .pointer width inner, address, v, m =>
    match m.loadNumber options.byteOrder address width.bytes with
    | .ok target =>
      .followed (Layout.pointer width inner).kindName address target ::
        storeNotes options inner target v m
    | .error _ => []
  | .struct fields, address, .record entries, m => fieldNotes fields address entries m
  | .collection element _, address, .array items, m =>
    match element.size? with
    | .ok stride =>
      notesOnStoring (storeNotes options element) (store options element) stride items address m
    | .error _ => []
  | _, _, _, _ => []
where
  /-- The notes on writing the entries for the fields. -/
  fieldNotes : List (Field Layout) → Int → List (Entry Value) → Memory → List Event
  | [], _, _, _ => []
  | f :: rest, address, entries, m =>
    match Value.lookup? entries f.name with
    | none => []
    | some v =>
      storeNotes options f.type (address + f.offset) v m ++
        match store options f.type (address + f.offset) v m with
        | (.ok _, m') => fieldNotes rest address entries m'
        | (.error _, _) => []

/-- The notes on writing a value at the address that a value gives. -/
def writeNotes (options : Options) (l : Layout) (at_ v : Value) (m : Memory) : List Event :=
  match check options l v, at_.location with
  | .ok _, .ok address => storeNotes options l address v m
  | _, _ => []

/-- The notes on reading a value at the address that a value gives. -/
def readAtNotes (options : Options) (m : Memory) (l : Layout) (at_ : Value) : List Event :=
  match at_.location with
  | .ok address => readNotes options m l address
  | .error _ => []

end TypedMemory.Codec
