import TypedMemory.ByteOrder
import TypedMemory.Numeral

/-!
# Text encodings

The encodings a text slot can be declared with, each as a pair of functions
between texts and bytes. Encoding refuses a text for its first code point that
has no coded form, and decoding refuses bytes for the **first place that cannot
be completed**, so both name one reason.

The encodings in units of 16 and 32 bits come with a fixed byte order, or with a
**byte order mark**: those write the mark in little order in front of every text, and
read a mark of either order, little order without one. The 8-bit encoding can have the
mark as well, which then says nothing but that it is this encoding.
-/

namespace TypedMemory

/-- A text encoding. -/
inductive Encoding
  | utf8
  /-- Eight bits, behind a byte order mark. -/
  | markedUtf8
  | ascii
  | latin1
  | utf16 (order : ByteOrder)
  /-- Sixteen bits, behind a byte order mark. -/
  | markedUtf16
  | utf32 (order : ByteOrder)
  /-- Thirty-two bits, behind a byte order mark. -/
  | markedUtf32
  deriving DecidableEq

namespace Encoding

/-- Why a text has no coded form, or bytes are no coded text. -/
inductive Fault
  /-- A code point is not below the given bound. -/
  | ordinal (bound : Nat)
  | surrogate
  | startByte
  | continuationByte
  | unexpectedEnd
  | truncated
  /-- A second half of a surrogate pair comes first. -/
  | loneLow
  /-- A first half of a surrogate pair is not followed by a second. -/
  | loneHigh
  | tooLarge
  | surrogateRange
  /-- A reason of some other codec. -/
  | other (reason : Text)
  deriving DecidableEq

/-! ### Names -/

/-- The names of an encoding, in their plain form. -/
structure Names where
  /-- Its own name. -/
  proper : Text
  /-- What it is called besides. -/
  aliases : List Text

/-- The encodings with their names. -/
def names : List (Encoding × Names) := [
  (utf8, ⟨"utf_8", ["utf8", "utf", "u8", "utf8_ucs2", "utf8_ucs4", "cp65001"]⟩),
  (markedUtf8, ⟨"utf_8_sig", []⟩),
  (ascii, ⟨"ascii", ["us_ascii", "us", "646", "cp367", "csascii", "ibm367", "iso646_us",
    "iso_ir_6", "ansi_x3.4_1968", "ansi_x3_4_1968", "ansi_x3.4_1986", "iso_646.irv_1991"]⟩),
  (latin1, ⟨"latin_1", ["latin1", "latin", "l1", "8859", "cp819", "csisolatin1", "ibm819",
    "iso8859", "iso8859_1", "iso_8859_1", "iso_8859_1_1987", "iso_ir_100"]⟩),
  (utf16 .little, ⟨"utf_16_le", ["utf_16le", "unicodelittleunmarked"]⟩),
  (utf16 .big, ⟨"utf_16_be", ["utf_16be", "unicodebigunmarked"]⟩),
  (markedUtf16, ⟨"utf_16", ["utf16", "u16"]⟩),
  (utf32 .little, ⟨"utf_32_le", ["utf_32le"]⟩),
  (utf32 .big, ⟨"utf_32_be", ["utf_32be"]⟩),
  (markedUtf32, ⟨"utf_32", ["utf32", "u32"]⟩)]

/-- The words of a name in small letters: runs of letters, digits and points. -/
def nameWords : Text → List Text
  | [] => [[]]
  | c :: rest =>
    if c.isLetter || c.isDigit || c = '.' then
      match nameWords rest with
      | word :: words => (c.toLower :: word) :: words
      | [] => [[c.toLower]]
    else [] :: nameWords rest

/-- The name in its plain form: its words with one underscore between any two. -/
def plainName (name : Text) : Text :=
  Text.join "_" ((nameWords name).filter (· ≠ []))

/-- A plain name with its points as underscores. -/
def withoutPoints (plain : Text) : Text :=
  plain.map fun (c : CodePoint) => if c = '.' then ('_' : CodePoint) else c

/-- Whether a plain name is one of these. In an alias a point can stand for an underscore,
in the proper name it cannot. -/
def Names.contains (known : Names) (plain : Text) : Bool :=
  plain = known.proper || known.aliases.contains plain ||
    known.aliases.contains (withoutPoints plain)

/-- The encoding of this name, in any of the ways to write it. -/
def ofName? (name : Text) : Option Encoding :=
  (names.find? fun (_, known) => known.contains (plainName name)).map (·.1)

/-! ### Encoding -/

/-- The bytes of a code point in the 8-bit variable encoding. -/
def utf8Bytes (c : CodePoint) : Bytes :=
  let n := c.val
  if n < 0x80 then [UInt8.ofNat n]
  else if n < 0x800 then [UInt8.ofNat (0xC0 + n / 64), UInt8.ofNat (0x80 + n % 64)]
  else if n < 0x10000 then
    [UInt8.ofNat (0xE0 + n / 4096), UInt8.ofNat (0x80 + n / 64 % 64), UInt8.ofNat (0x80 + n % 64)]
  else
    [UInt8.ofNat (0xF0 + n / 262144), UInt8.ofNat (0x80 + n / 4096 % 64),
      UInt8.ofNat (0x80 + n / 64 % 64), UInt8.ofNat (0x80 + n % 64)]

/-- The 16-bit units of a code point: itself, or a surrogate pair. -/
def utf16Units (c : CodePoint) : List Nat :=
  if c.val < 0x10000 then [c.val]
  else [0xD800 + (c.val - 0x10000) / 0x400, 0xDC00 + (c.val - 0x10000) % 0x400]

/-- The coded form of one code point. -/
def encodePoint (e : Encoding) (c : CodePoint) : Except Fault Bytes :=
  match e with
  | ascii => if c.val < 0x80 then .ok [UInt8.ofNat c.val] else .error (.ordinal 128)
  | latin1 => if c.val < 0x100 then .ok [UInt8.ofNat c.val] else .error (.ordinal 256)
  | utf8 | markedUtf8 => if c.isSurrogate then .error .surrogate else .ok (utf8Bytes c)
  | utf16 order => wide order
  | markedUtf16 => wide .little
  | utf32 order => full order
  | markedUtf32 => full .little
where
  wide (order : ByteOrder) : Except Fault Bytes :=
    if c.isSurrogate then .error .surrogate
    else .ok ((utf16Units c).flatMap (order.store 2))
  full (order : ByteOrder) : Except Fault Bytes :=
    if c.isSurrogate then .error .surrogate else .ok (order.store 4 c.val)

/-- The coded forms of the code points one after another. -/
def encodePoints (e : Encoding) : Text → Except Fault Bytes
  | [] => .ok []
  | c :: rest => do
    let bytes ← e.encodePoint c
    let more ← e.encodePoints rest
    pure (bytes ++ more)

/-- What stands in front of a text: the byte order mark where there is one. -/
def mark : Encoding → Bytes
  | markedUtf8 => [0xEF, 0xBB, 0xBF]
  | markedUtf16 => [0xFF, 0xFE]
  | markedUtf32 => [0xFF, 0xFE, 0, 0]
  | _ => []

/-- **The coded form of a text.** -/
def encode (e : Encoding) (t : Text) : Except Fault Bytes := do
  let bytes ← e.encodePoints t
  pure (e.mark ++ bytes)

/-! ### Decoding -/

/-- A byte within the given bounds, ends included. -/
def within (low high : Nat) (b : UInt8) : Bool :=
  low ≤ b.toNat && b.toNat ≤ high

/-- The six bits that a continuation byte carries. -/
def carried (b : UInt8) : Nat := b.toNat % 64

/-- The bounds of the byte behind a start byte: two start bytes leave out forms
that are too long, one the surrogates and one what is out of range. -/
def secondByte (start : UInt8) : UInt8 → Bool :=
  if start = 0xE0 then within 0xA0 0xBF
  else if start = 0xED then within 0x80 0x9F
  else if start = 0xF0 then within 0x90 0xBF
  else if start = 0xF4 then within 0x80 0x8F
  else within 0x80 0xBF

/-- The text in the 8-bit variable encoding. -/
def decodeUtf8 : Bytes → Except Fault Text
  | [] => .ok []
  | a :: rest =>
    if a.toNat < 0x80 then (decodeUtf8 rest).map (CodePoint.ofNat a.toNat :: ·)
    else if a.toNat < 0xC2 ∨ 0xF4 < a.toNat then .error .startByte
    else match rest with
      | [] => .error .unexpectedEnd
      | b :: rest =>
        if !secondByte a b then .error .continuationByte
        else if a.toNat < 0xE0 then
          (decodeUtf8 rest).map (CodePoint.ofNat (a.toNat % 32 * 64 + carried b) :: ·)
        else match rest with
          | [] => .error .unexpectedEnd
          | c :: rest =>
            if !within 0x80 0xBF c then .error .continuationByte
            else if a.toNat < 0xF0 then
              (decodeUtf8 rest).map
                (CodePoint.ofNat (a.toNat % 16 * 4096 + carried b * 64 + carried c) :: ·)
            else match rest with
              | [] => .error .unexpectedEnd
              | d :: rest =>
                if !within 0x80 0xBF d then .error .continuationByte
                else
                  (decodeUtf8 rest).map (CodePoint.ofNat
                    (a.toNat % 8 * 262144 + carried b * 4096 + carried c * 64 + carried d) :: ·)

/-- The text in an encoding of one byte for each code point below the bound. -/
def decodeSingle (bound : Nat) : Bytes → Except Fault Text
  | [] => .ok []
  | b :: rest =>
    if b.toNat < bound then (decodeSingle bound rest).map (CodePoint.ofNat b.toNat :: ·)
    else .error (.ordinal bound)

/-- The text in 16-bit units of the given order. -/
def decodeUtf16 (order : ByteOrder) : Bytes → Except Fault Text
  | [] => .ok []
  | [_] => .error .truncated
  | a :: b :: rest =>
    let unit := CodePoint.ofNat (order.load [a, b])
    -- A pair has its first half first, so a second half met here is alone.
    if unit.isLowSurrogate then .error .loneLow
    else if unit.isHighSurrogate then
      match rest with
      | c :: d :: rest =>
        let second := CodePoint.ofNat (order.load [c, d])
        if second.isLowSurrogate then
          (decodeUtf16 order rest).map (CodePoint.ofNat
            (0x10000 + (unit.val - 0xD800) * 0x400 + (second.val - 0xDC00)) :: ·)
        else .error .loneHigh
      | _ => .error .unexpectedEnd
    else (decodeUtf16 order rest).map (unit :: ·)

/-- The text in 32-bit units of the given order. -/
def decodeUtf32 (order : ByteOrder) : Bytes → Except Fault Text
  | [] => .ok []
  | a :: b :: c :: d :: rest =>
    match CodePoint.ofNat? (order.load [a, b, c, d]) with
    | none => .error .tooLarge
    | some unit =>
      if unit.isSurrogate then .error .surrogateRange
      else (decodeUtf32 order rest).map (unit :: ·)
  | _ => .error .truncated

/-- **The text that bytes are the coded form of.** -/
def decode (e : Encoding) (bytes : Bytes) : Except Fault Text :=
  match e with
  | utf8 => decodeUtf8 bytes
  | markedUtf8 =>
    match bytes with
    | 0xEF :: 0xBB :: 0xBF :: rest => decodeUtf8 rest
    | _ => decodeUtf8 bytes
  | ascii => decodeSingle 128 bytes
  | latin1 => decodeSingle 256 bytes
  | utf16 order => decodeUtf16 order bytes
  | markedUtf16 =>
    match bytes with
    | 0xFF :: 0xFE :: rest => decodeUtf16 .little rest
    | 0xFE :: 0xFF :: rest => decodeUtf16 .big rest
    -- Without a mark nothing is taken off.
    | _ => decodeUtf16 .little bytes
  | utf32 order => decodeUtf32 order bytes
  | markedUtf32 =>
    match bytes with
    | 0xFF :: 0xFE :: 0 :: 0 :: rest => decodeUtf32 .little rest
    | 0 :: 0 :: 0xFE :: 0xFF :: rest => decodeUtf32 .big rest
    | _ => decodeUtf32 .little bytes

/-- The wording of a fault. -/
def Fault.message : Fault → Text
  | ordinal bound => "ordinal not in range(" ++ Numeral.decimal bound ++ ")"
  | surrogate => "surrogates not allowed"
  | startByte => "invalid start byte"
  | continuationByte => "invalid continuation byte"
  | unexpectedEnd => "unexpected end of data"
  | truncated => "truncated data"
  | loneLow => "illegal encoding"
  | loneHigh => "illegal UTF-16 surrogate"
  | tooLarge => "code point not in range(0x110000)"
  | surrogateRange => "code point in surrogate code point range(0xd800, 0xe000)"
  | other reason => reason

end Encoding

end TypedMemory
