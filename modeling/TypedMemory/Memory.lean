import TypedMemory.Error

/-!
# Memory

A memory is a row of bytes mapped at a base address. An access has to lie within
`[base, base + length)` as a whole, and a memory may be read-only. What fails leaves
every byte as it was.

Devices may be faulty, which a memory can be told to be: to give one byte less than
was asked for, or to refuse every read or every write before looking at it.
-/

namespace TypedMemory

/-- How the device behind a memory fails. -/
inductive Memory.Fault
  /-- Every read gives one byte less. -/
  | shortRead
  /-- No read is done. -/
  | noRead
  /-- No write is done. -/
  | noWrite
  deriving DecidableEq

/-- A row of bytes mapped at a base address. -/
structure Memory where
  bytes : Bytes
  base : Int := 0
  readOnly : Bool := false
  fault : Option Memory.Fault := none
  deriving DecidableEq

namespace Memory

/-- The address one past the last byte. -/
def limit (m : Memory) : Int := m.base + m.bytes.length

/-- Whether so many bytes from the address on lie in the memory. -/
def covers (m : Memory) (address count : Int) : Bool :=
  m.base ≤ address && 0 ≤ count && address + count ≤ m.limit

/-- The place of an address in the row of bytes. -/
def index (m : Memory) (address : Int) : Nat := (address - m.base).toNat

/-- The failure of an access that leaves the memory. -/
def outOfRange {α : Type} (m : Memory) (address count : Int) : Except Error α :=
  Error.fail (.memoryAccess address (.outOfRange count m.base m.limit))

/-- The bytes in a range. -/
def slice (m : Memory) (address : Int) (count : Nat) : Bytes :=
  (m.bytes.drop (m.index address)).take count

/-- **Reading** so many bytes. -/
def readBytes (m : Memory) (address count : Int) : Except Error Bytes :=
  if m.fault = some .noRead then .error (.failure .deviceGone)
  else if !m.covers address count then m.outOfRange address count
  else
    let data := m.slice address count.toNat
    .ok (if m.fault = some .shortRead then data.dropLast else data)

/-- The memory with other bytes from an address on. -/
def replace (m : Memory) (address : Int) (data : Bytes) : Memory :=
  let i := m.index address
  { m with bytes := m.bytes.take i ++ data ++ m.bytes.drop (i + data.length) }

/-- Why so many bytes cannot be written, if they cannot. -/
def writeFault? (m : Memory) (address count : Int) : Option Error :=
  if m.fault = some .noWrite then some (.failure .deviceGone)
  else if m.readOnly then some (Error.memoryAccess address .readOnly)
  else if !m.covers address count then
    some (Error.memoryAccess address (.outOfRange count m.base m.limit)).raised
  else none

/-- **Writing** bytes. -/
def writeBytes (m : Memory) (address : Int) (data : Bytes) : Except Error Memory :=
  match m.writeFault? address data.length with
  | some fault => .error fault
  | none => .ok (m.replace address data)

/-- A memory of so many zero bytes. -/
def zeros [Host] (size : Int) (base : Int) (readOnly : Bool) (fault : Option Fault) :
    Except Error Memory :=
  if size < -wordCount 63 ∨ wordCount 63 ≤ size then .error (.failure .tooLarge)
  else if size < 0 then .error (.failure .badValue)
  else if Host.room ≤ size then .error (.failure .outOfMemory)
  else .ok ⟨List.replicate size.toNat 0, base, readOnly, fault⟩

end Memory

end TypedMemory
