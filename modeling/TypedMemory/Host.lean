import TypedMemory.Encoding

/-!
# Where scripts run

Some of what scripts and memory do is settled by the **host** on which they run: which
encodings there are besides those of `TypedMemory.Encoding`, what the code points are called,
what the memory of a script is told as, and how many bytes can be made at once. What is
defined and proved here is so for every host.

An encoding of the host is a pair of functions. It may refuse a text or bytes, with a reason
of its own, or fail in some other way.
-/

namespace TypedMemory

/-! ### Codecs -/

/-- How a codec fails. -/
inductive TextCodec.Fault
  /-- The text has no coded form, or the bytes are no coded text. -/
  | refused (reason : Encoding.Fault)
  /-- Anything else, known by its label. -/
  | broken (label : Text)
  deriving DecidableEq

/-- A text encoding as the two functions between texts and bytes. -/
structure TextCodec where
  encode : Text → Except TextCodec.Fault Bytes
  decode : Bytes → Except TextCodec.Fault Text

/-- The codec of an encoding. -/
def Encoding.codec (e : Encoding) : TextCodec where
  encode t := (e.encode t).mapError .refused
  decode bytes := (e.decode bytes).mapError .refused

namespace Encoding

variable {e : Encoding} {t : Text} {bytes : Bytes} {fault : Fault}

theorem encode_codec_of_ok (h : e.encode t = .ok bytes) : e.codec.encode t = .ok bytes :=
  congrArg (Except.mapError TextCodec.Fault.refused) h

theorem encode_codec_of_error (h : e.encode t = .error fault) :
    e.codec.encode t = .error (.refused fault) :=
  congrArg (Except.mapError TextCodec.Fault.refused) h

theorem decode_codec_of_ok (h : e.decode bytes = .ok t) : e.codec.decode bytes = .ok t :=
  congrArg (Except.mapError TextCodec.Fault.refused) h

theorem decode_codec_of_error (h : e.decode bytes = .error fault) :
    e.codec.decode bytes = .error (.refused fault) :=
  congrArg (Except.mapError TextCodec.Fault.refused) h

end Encoding

/-! ### Hosts -/

/-- The number of bytes that no row of bytes reaches: the places are signed numbers of 64
bits, and a few are taken by the row itself. -/
def rowLimit : Nat := wordCount 63 - 33

/-- **What there is where scripts run.** -/
class Host where
  /-- The codec of this name, besides those of the encodings. -/
  codec? : Text → Option TextCodec
  /-- The code point of this name. -/
  character? : Text → Option CodePoint
  /-- The kind of the memory of a script. -/
  memoryKind : Text
  /-- The memory of a script in full form. -/
  memoryText : Text
  /-- The room there is for bytes made all at once: there are never so many. -/
  room : Nat
  /-- A number can be made. -/
  lt_room : 8 < room
  room_le_rowLimit : room ≤ rowLimit

/-- The host of which no more is known. -/
instance (priority := low) Host.standard : Host where
  codec? _ := none
  character? _ := none
  memoryKind := "BufferMemory"
  memoryText := "BufferMemory"
  room := wordCount 35
  lt_room := by decide
  room_le_rowLimit := by decide

/-- **The codec of a name**: that of the encoding of this name, else one of the host. -/
def TextCodec.named? [Host] (name : Text) : Option TextCodec :=
  match Encoding.ofName? name with
  | some e => some e.codec
  | none => Host.codec? name

theorem TextCodec.named?_of_ofName? [Host] {name : Text} {e : Encoding}
    (h : Encoding.ofName? name = some e) : named? name = some e.codec := by
  rw [named?, h]

end TypedMemory
