import TypedMemory.Binary64
import TypedMemory.Numeral

/-!
# The shortest decimal of a binary number

A floating point number is shown by the **fewest decimal digits that read back as
the same number**, and of the decimals with that many digits by the nearest.

For one digit, then two, and so on up to seventeen, the two neighbours of the
number on the grid of decimals with that many digits are read back. The first
grid with a hit wins; of two hits the nearer is taken, and of two equally near
ones the even. Seventeen digits always suffice.

The digits are written positionally from `0.0001` up to below `10 ^ 16`, and with
an exponent of at least two digits outside of that.
-/

namespace TypedMemory.Binary64

/-- A positive decimal number: its digits as a whole number, times a power of ten. -/
structure Scientific where
  digits : Nat
  exponent : Int
  deriving DecidableEq

namespace Scientific

/-- The quotient of a positive decimal number over one, as two whole numbers. -/
def ratio (d : Scientific) : Nat × Nat :=
  if 0 ≤ d.exponent then (d.digits * powerOfTen d.exponent.toNat, 1)
  else (d.digits, powerOfTen (-d.exponent).toNat)

/-- The code that the decimal reads back as. -/
def magnitude (d : Scientific) : Nat :=
  Format.double.round (d.ratio.1 * unitsPerOne) d.ratio.2

end Scientific

/-- How many digits the number with so many units has before its decimal point,
counted negatively for zeros behind it. -/
def decimalPoint (units : Nat) : Int :=
  (Nat.toDigits 10 (units * powerOfTen 330 / unitsPerOne)).length - 330

/-- The decimal at or below the number on the grid with this exponent, and how the
rest of the number compares with half a step of the grid. -/
def below (units : Nat) (exponent : Int) : Scientific × Ordering :=
  let a := if 0 ≤ exponent then units else units * powerOfTen (-exponent).toNat
  let b := if 0 ≤ exponent then unitsPerOne * powerOfTen exponent.toNat else unitsPerOne
  (⟨a / b, exponent⟩, compare (2 * (a % b)) b)

/-- The better of the two neighbours on a grid, if one of them reads back. -/
def onGrid? (magnitude : Nat) (exponent : Int) : Option Scientific :=
  let (low, rest) := below (Format.double.units magnitude) exponent
  let high : Scientific := ⟨low.digits + 1, exponent⟩
  let nearer := match rest with
    | .lt => low
    | .gt => high
    | .eq => if low.digits % 2 = 0 then low else high
  match low.magnitude == magnitude, high.magnitude == magnitude with
  | true, true => some nearer
  | true, false => some low
  | false, true => some high
  | false, false => none

/-- The first grid with a hit, trying the given number of grids from one on, each
ten times as fine as the one before. -/
def firstGrid (magnitude : Nat) (exponent : Int) : Nat → Scientific
  | 0 => (below (Format.double.units magnitude) exponent).1
  | left + 1 => (onGrid? magnitude exponent).getD (firstGrid magnitude (exponent - 1) left)

/-- The shortest decimal of a positive finite number. -/
def shortest (x : Binary64) : Scientific :=
  firstGrid x.magnitude (decimalPoint (Format.double.units x.magnitude) - 1) 17

/-- The digits of a decimal without the zeros at their end, and how many of them
stand before the point. -/
def significant (d : Scientific) : Text × Int :=
  let ds := Numeral.digits 10 d.digits
  ((ds.reverse.dropWhile (· = ('0' : CodePoint))).reverse, ds.length + d.exponent)

/-- So many zeros. -/
def zeros (n : Nat) : Text := List.replicate n '0'

/-- A decimal as text. -/
def Scientific.render (d : Scientific) : Text :=
  let (ds, point) := significant d
  if -4 < point ∧ point ≤ 16 then
    if point ≤ 0 then "0." ++ zeros (-point).toNat ++ ds
    else if ds.length ≤ point.toNat then ds ++ zeros (point.toNat - ds.length) ++ ".0"
    else ds.take point.toNat ++ "." ++ ds.drop point.toNat
  else
    let exponent := point - 1
    let shown := Numeral.digits 10 exponent.natAbs
    ds.take 1 ++ (if ds.length ≤ 1 then [] else ("." : Text) ++ ds.drop 1) ++
      (if exponent < 0 then "e-" else "e+") ++ zeros (2 - shown.length) ++ shown

/-- The number as text. -/
def render (x : Binary64) : Text :=
  if x.isNaN then "nan"
  else
    let sign : Text := if x.isNegative then "-" else ""
    if x.isInfinite then sign ++ "inf"
    else if x.magnitude = 0 then sign ++ "0.0"
    else sign ++ x.shortest.render

end TypedMemory.Binary64
