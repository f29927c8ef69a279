import TypedMemory.Value.Spelled

/-!
# Values as text

Beside its full form a value has a **plain form**, `Value.shown`, in which a text is just
itself and an address just its number. What scripts make of a value as a text is the
plain form too, but for layouts and for no value at all.
-/

namespace TypedMemory.Value

variable [Host]

/-- The value in plain form. -/
def shown : Value → Except Error Text
  | text t => .ok t
  | address location => .ok (Numeral.hex location)
  | v => v.spelled

/-- The value as a script makes it a text: a layout in script form, no value as empty
brackets. -/
def toText : Value → Except Error Text
  | type layout => layout.describe
  | unit => .ok "()"
  | v => v.shown

end TypedMemory.Value
