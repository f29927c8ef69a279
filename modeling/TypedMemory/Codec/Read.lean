import TypedMemory.Codec.Access
import TypedMemory.Value.Address
import TypedMemory.Value.Render

/-!
# Reading values

What lies in memory as a value, by the layout it has. Whole numbers share one signed
range of 64 bits, so an unsigned number with its top bit set comes back negative.
Text ends at its first NUL. A struct becomes a record in the order of its fields and a
collection an array. A pointer is **not followed**: it becomes the address it holds
together with the layout it points to.

The slots are read one after another, in the order of offsets and elements, and the
first that fails ends the reading.
-/

namespace TypedMemory.Codec

variable [Host]

/-- The value of a stored whole number, in the signed range of 64 bits. -/
def integerValue (kind : IntegerKind) (n : Nat) : Int :=
  if kind.signed ∨ kind.width = 8 then signedValue (8 * kind.width) n else n

/-- The value of a stored floating point number. -/
def floatValue (kind : FloatKind) (n : Nat) : Binary64 :=
  match kind with
  | .fp32 => .ofSingle n
  | .fp64 => ⟨BitVec.ofNat 64 n⟩

/-- So many values, each a stride behind the one before. -/
def readEach (readAt : Int → Except Error Value) (stride : Nat) :
    Nat → Int → Except Error (List Value)
  | 0, _ => .ok []
  | count + 1, address => do
    let v ← readAt address
    let rest ← readEach readAt stride count (address + stride)
    pure (v :: rest)

/-- **The value laid out at an address.** -/
def read (options : Options) (m : Memory) : Layout → Int → Except Error Value
  | .integer kind, address => do
    let n ← m.loadNumber options.byteOrder address kind.width
    pure (.int (integerValue kind n))
  | .float kind, address => do
    let n ← m.loadNumber options.byteOrder address kind.width
    pure (.float (floatValue kind n) none)
  | .rawAddress width, address => do
    let n ← m.loadNumber options.byteOrder address width.bytes
    pure (.address n)
  | .pointer width inner, address => do
    let n ← m.loadNumber options.byteOrder address width.bytes
    pure (.pointer inner n none)
  | .text length, address => do
    let data ← m.load address length
    let t ← decodeText options.textEncoding address (cutNarrow data)
    pure (.text t)
  | .wideText length, address => do
    let data ← m.load address (length * 2)
    let t ← decodeText options.wideTextEncoding address (cutWide data)
    pure (.text t)
  | .struct fields, address => do
    let entries ← readFields fields address
    pure (.ofEntries entries)
  | .collection element count, address => do
    -- The count is spelled in the note on reading, which comes before the first element.
    spellable count
    let stride ← element.size?
    let items ← readEach (read options m element) stride count address
    pure (.array items)
  | .foreign v, _ => .error (Layout.refusal v)
where
  /-- The fields of a struct at an address, by their names. -/
  readFields : List (Field Layout) → Int → Except Error (List (Entry Value))
  | [], _ => .ok []
  | f :: rest, address => do
    let v ← read options m f.type (address + f.offset)
    let entries ← readFields rest address
    pure (⟨f.name, v⟩ :: entries)

/-- The value at the address that a value gives. -/
def readAt (options : Options) (m : Memory) (l : Layout) (at_ : Value) : Except Error Value := do
  let address ← at_.location
  read options m l address

end TypedMemory.Codec
