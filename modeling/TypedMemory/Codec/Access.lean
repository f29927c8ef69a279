import TypedMemory.Memory
import TypedMemory.Options
import TypedMemory.Text.Quoted

/-!
# Access to slots

How the codec touches memory. A slot of no bytes is not touched at all, so it may lie
anywhere, and a failing device is told as a failed access at the slot's address.

A text slot is written with the text's bytes and zeros behind them. Whether the slot
can be written is asked of its length alone, before the zeros are made.
-/

namespace TypedMemory

namespace Memory

/-- A failure of the device as a failed access at the address. -/
def Fault.atAddress (address : Int) : Error → Error
  | .failure .deviceGone => .memoryAccess address .deviceGone
  | e => e

/-- The bytes of a slot. -/
def load (m : Memory) (address : Int) (count : Nat) : Except Error Bytes :=
  if count = 0 then .ok []
  else
    match m.readBytes address count with
    | .error e => .error (Fault.atAddress address e)
    | .ok data =>
      if data.length = count then .ok data
      else Error.fail (.memoryAccess address (.shortRead count data.length))

/-- The number stored in a slot. -/
def loadNumber (m : Memory) (order : ByteOrder) (address : Int) (width : Nat) :
    Except Error Nat :=
  (m.load address width).map order.load

/-- The memory with the bytes, and zeros behind them, in a slot of the given length. -/
def store (m : Memory) (address : Int) (count : Nat) (data : Bytes) : Except Error Memory :=
  if count = 0 then .ok m
  else
    match m.writeFault? address count with
    | some fault => .error (Fault.atAddress address fault)
    | none => .ok (m.replace address (data ++ List.replicate (count - data.length) 0))

end Memory

/-! ### Coded text -/

/-- Why an encoding cannot be asked for by this name, if it cannot: a name is itself
encoded, and a NUL would end it. -/
def nameFault? (name : Text) : Option Failure :=
  if name.any CodePoint.isSurrogate then some .surrogate
  else if name.any (·.val = 0) then some .badValue
  else none

/-- The text that bytes stand for in the named encoding. No bytes at all stand for the empty
text, even if there is no encoding of that name. -/
def decodeText [Host] (encoding : Option Text) (address : Int) (bytes : Bytes) :
    Except Error Text :=
  match encoding with
  | none => .error (.failure .badKind)
  | some name =>
    match nameFault? name with
    | some fault => .error (.failure fault)
    | none =>
      if bytes.isEmpty then .ok []
      else
        match TextCodec.named? name with
        | none => .error (.failure .unknownEncoding)
        | some codec =>
          match codec.decode bytes with
          | .ok t => .ok t
          | .error (.refused reason) => Error.fail (.decode address name reason)
          | .error (.broken label) => .error (.failure (.codec label))

/-- The bytes that stand for a text in the named encoding. -/
def encodeText [Host] (encoding : Option Text) (t : Text) : Except Error Bytes :=
  match encoding with
  | none => .error (.failure .badKind)
  | some name =>
    match nameFault? name with
    -- A name that cannot be encoded is told as a text that cannot.
    | some .surrogate => Error.fail (.encode (.text t.quoted name .surrogate))
    | some fault => .error (.failure fault)
    | none =>
      match TextCodec.named? name with
      | none => .error (.failure .unknownEncoding)
      | some codec =>
        match codec.encode t with
        | .ok bytes => .ok bytes
        | .error (.refused reason) => Error.fail (.encode (.text t.quoted name reason))
        | .error (.broken label) => .error (.failure (.codec label))

/-- The bytes before the first NUL. -/
def cutNarrow (bytes : Bytes) : Bytes :=
  bytes.takeWhile (· ≠ 0)

/-- The 16-bit units before the first NUL unit. -/
def cutWide : Bytes → Bytes
  | a :: b :: rest => if a = 0 ∧ b = 0 then [] else a :: b :: cutWide rest
  | bytes => bytes

end TypedMemory
