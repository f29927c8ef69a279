import TypedMemory.ByteOrder
import TypedMemory.Layout.Build

/-!
# Options

What memory is read and written with: the byte order of numbers, the encodings of
narrow and of wide text, and what a declaration does with a second field at an offset.

The encodings are kept by name. A name need not be that of an encoding, and an options
file may leave one open; both come to light when a text is coded. An open policy is
that of replacing.
-/

namespace TypedMemory

/-- What memory is read and written with. -/
structure Options where
  byteOrder : ByteOrder := .little
  textEncoding : Option Text := some "utf-8"
  wideTextEncoding : Option Text := some "utf-16-le"
  overlapPolicy : Option OverlapPolicy := some .replace
  deriving DecidableEq

namespace Options

/-- The name of a byte order in options. -/
def byteOrderName : ByteOrder → Text
  | .little => "little"
  | .big => "big"

/-- The byte order of this name. -/
def byteOrderNamed? (name : Text) : Option ByteOrder :=
  [ByteOrder.little, ByteOrder.big].find? fun order => byteOrderName order = name

/-- The mark that stands for the byte order in front of number formats. -/
def byteOrderMark (o : Options) : Text :=
  match o.byteOrder with
  | .little => "<"
  | .big => ">"

/-- What a declaration does with a second field at an offset. -/
def policy (o : Options) : OverlapPolicy :=
  o.overlapPolicy.getD .replace

end Options

end TypedMemory
