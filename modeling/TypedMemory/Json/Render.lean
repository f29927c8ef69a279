import TypedMemory.Value.Render

/-!
# Values written as JSON

The values that JSON has words for, written in plain basic characters: every other code
point of a text is an escape, by its 16-bit units. Not-a-number and the infinities have
the usual words outside the standard. Records keep the order of their entries.

There are two styles: on one line, or with each item on a line of its own, indented by
two spaces a level.

Bytes, memory, addresses and layouts have no JSON form. `Json.plain` gives addresses
and layouts one as texts, and an address with a layout as a record of the two.
-/

namespace TypedMemory.Json

open Numeral (decimal paddedHex)

/-! ### Texts -/

/-- One code point as it stands between quotes. -/
def escaped (c : CodePoint) : Text :=
  if c = '"' then "\\\""
  else if c = '\\' then "\\\\"
  else if c = '\n' then "\\n"
  else if c = '\r' then "\\r"
  else if c = '\t' then "\\t"
  else if c = '\x0c' then "\\f"
  else if c = '\x08' then "\\b"
  else if 0x20 ≤ c.val ∧ c.val < 0x7F then [c]
  else (Encoding.utf16Units c).flatMap fun unit => "\\u" ++ paddedHex 4 unit

/-- A text between quotes. -/
def quoted (t : Text) : Text :=
  "\"" ++ t.flatMap escaped ++ "\""

/-! ### Values -/

/-- A floating point number. -/
def float (x : Binary64) : Text :=
  if x.isNaN then "NaN"
  else if x.isInfinite then (if x.isNegative then "-Infinity" else "Infinity")
  else x.render

/-- How the parts of an array or record are set: what stands behind the opening
bracket, between two parts, and before the closing one. -/
structure Style where
  opening : Nat → Text
  between : Nat → Text
  closing : Nat → Text

/-- So many levels of indentation on a new line. -/
def lineAt (level : Nat) : Text :=
  "\n" ++ List.replicate (2 * level) (' ' : CodePoint)

/-- Everything on one line. -/
def Style.inline : Style := ⟨fun _ => [], fun _ => ", ", fun _ => []⟩

/-- Each part on a line of its own. -/
def Style.indented : Style :=
  ⟨fun level => lineAt (level + 1), fun level => "," ++ lineAt (level + 1), lineAt⟩

/-- Brackets around parts; around none nothing stands between them. -/
def bracketed (style : Style) (level : Nat) (left right : Text) (parts : List Text) : Text :=
  if parts.isEmpty then left ++ right
  else
    left ++ style.opening level ++ Text.join (style.between level) parts ++
      style.closing level ++ right

/-- A value at a level of nesting. -/
def renderAt (style : Style) : Value → Nat → Except Error Text
  | .unit, _ => .ok "null"
  | .bool b, _ => .ok (if b then "true" else "false")
  | .int n, _ => do spellable n; pure (decimal n)
  | .float x _, _ => .ok (float x)
  | .text t, _ => .ok (quoted t)
  | .array items, level => do
    let parts ← itemsAt items (level + 1)
    pure (bracketed style level "[" "]" parts)
  | .record entries, level => do
    let parts ← entriesAt entries (level + 1)
    pure (bracketed style level "\x7b" "\x7d" parts)
  | _, _ => .error (.failure .badKind)
where
  /-- Each item at a level of nesting. -/
  itemsAt : List Value → Nat → Except Error (List Text)
  | [], _ => .ok []
  | v :: rest, level => do
    let part ← renderAt style v level
    let parts ← itemsAt rest level
    pure (part :: parts)
  /-- Each entry at a level of nesting. -/
  entriesAt : List (Entry Value) → Nat → Except Error (List Text)
  | [], _ => .ok []
  | e :: rest, level => do
    let part ← renderAt style e.value level
    let parts ← entriesAt rest level
    pure ((quoted e.name ++ ": " ++ part) :: parts)

/-- **A value as JSON.** -/
def render (style : Style) (v : Value) : Except Error Text :=
  renderAt style v 0

/-! ### Values without a JSON form -/

/-- The value with every address and layout in it made a text. -/
def plain [Host] : Value → Except Error Value
  | .address location => .ok (.text (Numeral.hex location))
  | .pointer target location _ => do
    let shown ← target.describe
    pure (.record [⟨"type", .text shown⟩, ⟨"address", .text (Numeral.hex location)⟩])
  | .type layout => layout.describe.map Value.text
  | .array items => do
    let items ← plainItems items
    pure (.array items)
  | .record entries => do
    let entries ← plainEntries entries
    pure (.record entries)
  | v => .ok v
where
  /-- Each item made plain. -/
  plainItems : List Value → Except Error (List Value)
  | [] => .ok []
  | v :: rest => do
    let v ← plain v
    let rest ← plainItems rest
    pure (v :: rest)
  /-- Each entry made plain. -/
  plainEntries : List (Entry Value) → Except Error (List (Entry Value))
  | [] => .ok []
  | e :: rest => do
    let v ← plain e.value
    let rest ← plainEntries rest
    pure (⟨e.name, v⟩ :: rest)

end TypedMemory.Json
