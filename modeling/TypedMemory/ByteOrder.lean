/-!
# Numbers as bytes

A number of a fixed width is stored as its base-256 digits, the least first in
**little** order and the greatest first in **big** order. What does not fit the
width is dropped, so storing takes the number modulo a power of 256.
-/

namespace TypedMemory

/-- A run of bytes. -/
abbrev Bytes := List UInt8

/-- Which end of a number comes first in memory. -/
inductive ByteOrder
  /-- The least byte first. -/
  | little
  /-- The greatest byte first. -/
  | big
  deriving DecidableEq

namespace ByteOrder

/-- The lowest base-256 digits of a number, the least first. -/
def digits : Nat → Nat → Bytes
  | 0, _ => []
  | width + 1, n => UInt8.ofNat n :: digits width (n / 256)

/-- The number with these base-256 digits, the least first. -/
def ofDigits : Bytes → Nat
  | [] => 0
  | b :: rest => b.toNat + 256 * ofDigits rest

/-- A number as stored in the given number of bytes. -/
def store (order : ByteOrder) (width n : Nat) : Bytes :=
  match order with
  | little => digits width n
  | big => (digits width n).reverse

/-- The number stored as these bytes. -/
def load (order : ByteOrder) (bytes : Bytes) : Nat :=
  match order with
  | little => ofDigits bytes
  | big => ofDigits bytes.reverse

end ByteOrder

/-- How many words of so many bits there are. -/
def wordCount (bits : Nat) : Nat := 1 <<< bits

/-- The number that a word of the given bits stands for when its top bit counts
negatively. -/
def signedValue (bits n : Nat) : Int :=
  if n < wordCount (bits - 1) then n else (n : Int) - wordCount bits

end TypedMemory
