import TypedMemory.Text

/-!
# Numerals

How whole numbers are spelled and read. Decimal spelling has a **limit of 4300
digits**, in both directions: a longer number is never written out and a longer
numeral is never read, so whoever spells a number asks `Numeral.isSpellable`
first. Hexadecimal has no limit.

Reading is generous where people type numbers: a sign, blanks around the number,
single underscores between digits, the digits of every script, and, where the
numeral may say its own base, the marks `0x`, `0o` and `0b`.
-/

namespace TypedMemory.Numeral

/-! ### Spelling -/

/-- The digits of a number in a base up to sixteen, the small letters after `9`. -/
def digits (base n : Nat) : Text :=
  (Nat.toDigits base n).map CodePoint.ofChar

/-- A number in decimal, with a minus sign if it is negative. -/
def decimal (n : Int) : Text :=
  if n < 0 then "-" ++ digits 10 n.natAbs else digits 10 n.natAbs

/-- A number as addresses are shown: `0x`, then its sign and hexadecimal digits. -/
def hex (n : Int) : Text :=
  if n < 0 then "0x-" ++ digits 16 n.natAbs else "0x" ++ digits 16 n.natAbs

/-- The hexadecimal digits of a number, filled up with zeros to a width. -/
def paddedHex (width n : Nat) : Text :=
  List.replicate (width - (digits 16 n).length) ('0' : CodePoint) ++ digits 16 n

/-- The most decimal digits a number is written or read with. -/
def digitLimit : Nat := 4300

/-- Numbers whose decimal spelling keeps within the limit. -/
def isSpellable (n : Int) : Bool :=
  (Nat.toDigits 10 n.natAbs).length ≤ digitLimit

/-! ### Reading plain digits -/

/-- The number that a row of digits spells; what is no digit counts as zero. -/
def value (base : Nat) (t : Text) : Nat :=
  t.foldl (fun n c => n * base + c.hexDigit?.getD 0) 0

/-! ### Reading what people type -/

/-- Where the ten digits of each script after the basic one begin. -/
def digitRows : List Nat := [
  0x660, 0x6F0, 0x7C0, 0x966, 0x9E6, 0xA66, 0xAE6, 0xB66, 0xBE6, 0xC66, 0xCE6, 0xD66, 0xDE6,
  0xE50, 0xED0, 0xF20, 0x1040, 0x1090, 0x17E0, 0x1810, 0x1946, 0x19D0, 0x1A80, 0x1A90, 0x1B50,
  0x1BB0, 0x1C40, 0x1C50, 0xA620, 0xA8D0, 0xA900, 0xA9D0, 0xA9F0, 0xAA50, 0xABF0, 0xFF10,
  0x104A0, 0x10D30, 0x11066, 0x110F0, 0x11136, 0x111D0, 0x112F0, 0x11450, 0x114D0, 0x11650,
  0x116C0, 0x11730, 0x118E0, 0x11950, 0x11C50, 0x11D50, 0x11DA0, 0x16A60, 0x16AC0, 0x16B50,
  0x1D7CE, 0x1D7D8, 0x1D7E2, 0x1D7EC, 0x1D7F6, 0x1E140, 0x1E2F0, 0x1E950, 0x1FBF0]

/-- The blanks from `0x80` on. -/
def wideBlanks : List Nat := [
  0x85, 0xA0, 0x1680, 0x2000, 0x2001, 0x2002, 0x2003, 0x2004, 0x2005, 0x2006, 0x2007, 0x2008,
  0x2009, 0x200A, 0x2028, 0x2029, 0x202F, 0x205F, 0x3000]

/-- Tab, the line and page ends, and the space. -/
def isBlank (c : CodePoint) : Bool :=
  (9 ≤ c.val && c.val ≤ 13) || c.val == 32

/-- The basic code point that stands for this one in a numeral: a blank for any
blank, a digit for the same digit of any script. -/
def fold (c : CodePoint) : CodePoint :=
  if c.val < 0x80 then c
  else if wideBlanks.contains c.val then ' '
  else match digitRows.find? fun row => row ≤ c.val && c.val < row + 10 with
    | some row => CodePoint.ofNat (48 + (c.val - row))
    | none => c

/-- Digits of a base with single underscores between them, read after the number
`n`. The flag tells that an underscore or the end may follow. -/
def grouped? (base : Nat) : Nat → Bool → Text → Option Nat
  | n, afterDigit, [] => if afterDigit then some n else none
  | n, afterDigit, c :: rest =>
    if c = '_' then if afterDigit then grouped? base n false rest else none
    else match c.hexDigit? with
      | some d => if d < base then grouped? base (n * base + d) true rest else none
      | none => none

/-- A decimal numeral without sign, within the limit of digits. -/
def unsignedDecimal? (t : Text) : Option Nat :=
  if (t.filter CodePoint.isDigit).length ≤ digitLimit then grouped? 10 0 false t else none

/-- How the base of a numeral is found. -/
inductive Radix
  /-- Ten. -/
  | decimal
  /-- Sixteen, with or without the mark `0x`. -/
  | hexadecimal
  /-- As the mark says, ten without one. -/
  | marked

/-- Digits after a mark: at least one, and an underscore may come first. -/
def afterMark? (base : Nat) : Text → Option Nat
  | [] => none
  | t => grouped? base 0 true t

/-- A numeral without sign. -/
def unsigned? : Radix → Text → Option Nat
  | .decimal, t => unsignedDecimal? t
  | .hexadecimal, lead :: mark :: rest =>
    if lead = '0' ∧ (mark = 'x' ∨ mark = 'X') then afterMark? 16 rest
    else grouped? 16 0 false (lead :: mark :: rest)
  | .hexadecimal, t => grouped? 16 0 false t
  | .marked, lead :: mark :: rest =>
    if lead = '0' then
      if mark = 'x' ∨ mark = 'X' then afterMark? 16 rest
      else if mark = 'o' ∨ mark = 'O' then afterMark? 8 rest
      else if mark = 'b' ∨ mark = 'B' then afterMark? 2 rest
      else (unsignedDecimal? (lead :: mark :: rest)).filter (· = 0)
    else unsignedDecimal? (lead :: mark :: rest)
  | .marked, t => unsignedDecimal? t

/-- A numeral with blanks around it and perhaps a sign in front. -/
def read? (radix : Radix) (t : Text) : Option Int :=
  let t := (t.map fold).dropWhile isBlank
  let t := (t.reverse.dropWhile isBlank).reverse
  match t with
  | [] => none
  | sign :: rest =>
    if sign = '-' then (unsigned? radix rest).map fun n => -(n : Int)
    else if sign = '+' then (unsigned? radix rest).map Int.ofNat
    else (unsigned? radix t).map Int.ofNat

example : read? .decimal " -1_000 " = some (-1000) := by decide +kernel
example : read? .marked "0x1F" = some 31 := by decide +kernel
example : read? .marked "010" = none := by decide +kernel

end TypedMemory.Numeral
