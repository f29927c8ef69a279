import TypedMemory.ByteOrder

/-!
# Binary floating point

Numbers in the 64-bit binary interchange format, worked with **exactly**: every
finite one is a whole number of units of `2 ^ -1074`, so a sum, a comparison or a
change of format is done on whole numbers and rounded once at the end.

Rounding goes to the nearest representable number, and a tie to the one with the
even last bit. It is one function, `Format.round`, for both formats: it gives the
position of the result in the ascending list of all non-negative numbers of the
format, which is also how the format codes that number. Where the list ends stands
infinity.
-/

namespace TypedMemory

/-- A whole quotient rounded to the nearest, a tie to the even neighbour. -/
def roundedQuotient (a b : Nat) : Nat :=
  let q := a / b
  let r := a % b
  if 2 * r < b then q else if b < 2 * r then q + 1 else q + q % 2

/-- A binary interchange format, by how many bits its exponent and its fraction
take. The exponent of a number's unit is at least `-unitExponent`. -/
structure Format where
  width : Nat
  exponentBits : Nat
  fractionBits : Nat
  unitExponent : Nat

namespace Format

/-- The 32-bit format. -/
def single : Format := ⟨4, 8, 23, 149⟩

/-- The 64-bit format. -/
def double : Format := ⟨8, 11, 52, 1074⟩

/-- The code of infinity, one above that of the greatest number. -/
def infinity (f : Format) : Nat := (wordCount f.exponentBits - 1) <<< f.fractionBits

/-- The weight of the sign bit. -/
def signWeight (f : Format) : Nat := wordCount (f.exponentBits + f.fractionBits)

/-- The code without its sign. -/
def magnitude (f : Format) (code : Nat) : Nat := code % f.signWeight

/-- Whether the sign bit is set. -/
def isNegative (f : Format) (code : Nat) : Bool := code / f.signWeight % 2 == 1

/-- How many units the number with this code has, for a code below infinity. -/
def units (f : Format) (magnitude : Nat) : Nat :=
  let exponent := magnitude >>> f.fractionBits
  let fraction := magnitude % wordCount f.fractionBits
  if exponent = 0 then fraction else (wordCount f.fractionBits + fraction) <<< (exponent - 1)

/-- **Rounding**: the code of the number nearest to `a / b` units, and the code of
infinity from the end of the range on. -/
def round (f : Format) (a b : Nat) : Nat :=
  -- The quotient is cut to one bit more than the fraction has; below the smallest exponent
  -- nothing is cut. A carry out of the fraction raises the exponent by itself.
  let q := a / b
  let shift := Nat.log2 q - f.fractionBits
  min (shift <<< f.fractionBits + roundedQuotient a (b <<< shift)) f.infinity

end Format

/-- A number in the 64-bit format, as its bits. -/
structure Binary64 where
  bits : BitVec 64
  deriving DecidableEq

namespace Binary64

/-- The number with this code and sign. -/
def ofMagnitude (negative : Bool) (magnitude : Nat) : Binary64 :=
  ⟨BitVec.ofNat 64 (if negative then Format.double.signWeight + magnitude else magnitude)⟩

/-- The code without its sign. -/
def magnitude (x : Binary64) : Nat := Format.double.magnitude x.bits.toNat

/-- Whether the sign bit is set, also of a zero or a NaN. -/
def isNegative (x : Binary64) : Bool := Format.double.isNegative x.bits.toNat

/-- Not a number. -/
def isNaN (x : Binary64) : Bool := Format.double.infinity < x.magnitude

/-- One of the two infinities. -/
def isInfinite (x : Binary64) : Bool := x.magnitude == Format.double.infinity

/-- A finite number. -/
def isFinite (x : Binary64) : Bool := x.magnitude < Format.double.infinity

/-- The number of units of `2 ^ -1074`, for a finite number. -/
def scaled (x : Binary64) : Int :=
  let u : Int := Format.double.units x.magnitude
  if x.isNegative then -u else u

/-- How many units make one. -/
def unitsPerOne : Nat := 1 <<< Format.double.unitExponent

/-- The number nearest to a rational number of units, with the given sign. -/
def ofUnits (negative : Bool) (a b : Nat) : Binary64 :=
  ofMagnitude negative (Format.double.round a b)

/-- Infinity of the given sign. -/
def infinity (negative : Bool) : Binary64 := ofMagnitude negative Format.double.infinity

/-- The NaN that arithmetic gives for an undefined result. -/
def undefinedResult : Binary64 := ⟨0xFFF8000000000000⟩

/-- A NaN as an operation hands it on: with its quiet bit set. -/
def quieted (x : Binary64) : Binary64 := ⟨x.bits ||| 0x0008000000000000⟩

/-! ### Arithmetic -/

/-- The number with the other sign, also of a zero or a NaN. -/
def negate (x : Binary64) : Binary64 := ⟨x.bits ^^^ 0x8000000000000000⟩

/-- The sum. A NaN operand is handed on, the first if both are; a zero sum is
negative only if both operands are. -/
def add (x y : Binary64) : Binary64 :=
  if x.isNaN then x.quieted
  else if y.isNaN then y.quieted
  else if x.isInfinite then
    if y.isInfinite && x.isNegative != y.isNegative then undefinedResult else x
  else if y.isInfinite then y
  else
    let sum := x.scaled + y.scaled
    if sum = 0 then ofMagnitude (x.isNegative && y.isNegative) 0
    else ofUnits (sum < 0) sum.natAbs 1

/-- The difference: the sum with the negated second operand, except that a NaN is
handed on as it is. -/
def sub (x y : Binary64) : Binary64 :=
  if y.isNaN then add x y else add x y.negate

/-! ### Comparison -/

/-- Equality of numbers: the two zeros are equal and a NaN equals nothing. -/
def numericallyEqual (x y : Binary64) : Bool :=
  !x.isNaN && !y.isNaN &&
    (if x.isFinite && y.isFinite then x.scaled == y.scaled else x.bits == y.bits)

/-- Whether the number is exactly this whole number. -/
def equalsInt (x : Binary64) (n : Int) : Bool :=
  x.isFinite && x.scaled == n * unitsPerOne

/-! ### Conversion -/

/-- The number nearest to a whole number, unless that is out of range. -/
def ofInt? (n : Int) : Option Binary64 :=
  let x := ofUnits (n < 0) (n.natAbs * unitsPerOne) 1
  if x.isFinite then some x else none

/-- A one with so many zeros behind it. -/
def powerOfTen (zeros : Nat) : Nat := Nat.pow 10 zeros

/-- The number nearest to a decimal fraction with the given digits behind the
point, infinity if that is out of range. -/
def ofDecimal (digits places : Nat) : Binary64 :=
  ofUnits false (digits * unitsPerOne) (powerOfTen places)

/-- How many doublings lead from the unit of the 64-bit format to that of the 32-bit
format. -/
def singleUnit : Nat := Format.double.unitExponent - Format.single.unitExponent

/-- The code in the 32-bit format, rounded; none if a finite number is out of its
range. A NaN keeps its sign and the top of its fraction. -/
def toSingle? (x : Binary64) : Option Nat :=
  let sign := if x.isNegative then Format.single.signWeight else 0
  if x.isNaN then
    -- The quiet bit is set, so what is left is no infinity.
    some (sign + Format.single.infinity +
      (0x400000 ||| (x.magnitude % wordCount 52) >>> 29))
  else if x.isInfinite then some (sign + Format.single.infinity)
  else
    let m := Format.single.round (Format.double.units x.magnitude) (1 <<< singleUnit)
    if m < Format.single.infinity then some (sign + m) else none

/-- The number with this code in the 32-bit format. -/
def ofSingle (code : Nat) : Binary64 :=
  let negative := Format.single.isNegative code
  let m := Format.single.magnitude code
  if Format.single.infinity < m then
    ofMagnitude negative (Format.double.infinity + (0x8000000000000 ||| (m % wordCount 23) <<< 29))
  else if m = Format.single.infinity then infinity negative
  else ofUnits negative (Format.single.units m <<< singleUnit) 1

end Binary64

end TypedMemory
