import TypedMemory.Numeral
import TypedMemory.Text.Printable

/-!
# Quoted texts

How a text is shown inside a message, so that a reader can tell a blank from a
control and a text from a name. It stands between single quotes, or between
double quotes when it holds a single quote and no double one. The backslash and
the surrounding quote are escaped, and so is every code point that leaves no
mark on paper: by a letter for the three common controls, else by its number in
two, four or eight hexadecimal digits.

Bytes are shown the same way behind a `b`, one mark for each byte.
-/

namespace TypedMemory.Text

/-- Double quotes if the text holds a single one and no double one, else single. -/
def quoteMark (t : Text) : CodePoint :=
  if t.contains ('\'' : CodePoint) && !t.contains ('"' : CodePoint) then '"' else '\''

/-- One code point as it stands between the given quotes. -/
def quotedPoint (mark c : CodePoint) : Text :=
  if c = mark ∨ c = '\\' then ['\\', c]
  else if c = '\n' then "\\n"
  else if c = '\r' then "\\r"
  else if c = '\t' then "\\t"
  else if c.isPrintable then [c]
  else if c.val < 0x100 then "\\x" ++ Numeral.paddedHex 2 c.val
  else if c.val < 0x10000 then "\\u" ++ Numeral.paddedHex 4 c.val
  else "\\U" ++ Numeral.paddedHex 8 c.val

/-- The text between quotes. -/
def quoted (t : Text) : Text :=
  [t.quoteMark] ++ t.flatMap (quotedPoint t.quoteMark) ++ [t.quoteMark]

/-- One byte as it stands between the given quotes: only the basic printable
characters stand for themselves. -/
def quotedByte (mark : CodePoint) (b : UInt8) : Text :=
  let c : CodePoint := ⟨b.toNat, by have h := b.toNat_lt; omega⟩
  if c.val < 0x80 then quotedPoint mark c else "\\x" ++ Numeral.paddedHex 2 c.val

/-- Bytes between quotes, behind a `b`. -/
def quotedBytes (bytes : List UInt8) : Text :=
  let mark : CodePoint := if bytes.contains 39 && !bytes.contains 34 then '"' else '\''
  "b" ++ [mark] ++ bytes.flatMap (quotedByte mark) ++ [mark]

example : quoted "it's" = "\"it's\"" := by decide +kernel
example : quoted "a\"b'\n" = "'a\"b\\'\\n'" := by decide +kernel

end TypedMemory.Text
