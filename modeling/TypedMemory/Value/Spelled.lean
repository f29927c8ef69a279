import TypedMemory.Binary64.Shortest
import TypedMemory.Error
import TypedMemory.Layout.Render
import TypedMemory.Text.Quoted

/-!
# Layouts and values in full form

The **full form** of a layout names each of its parts, and that of a value has its texts
between quotes; arrays and records show their parts in full form. It appears in messages
and wherever a value is shown inside another.

The functions that make it are total. Whether something can be shown at all is a question
apart: a number may be too long to spell, and where an address carries a value in place
of its layout, that value has no script form. `Layout.describe`, `Layout.spelled` and
`Value.spelled` ask it first, and tell the first fault in reading order.
-/

namespace TypedMemory

open Numeral (decimal hex)

variable [Host]

/-! ### The full form -/

/-- The parts of a tuple between its parentheses: a single one is followed by a comma. -/
def Layout.tuple : List Text → Text
  | [part] => "(" ++ part ++ ",)"
  | parts => "(" ++ Text.join ", " parts ++ ")"

/-- How a truth value is spelled. -/
def Layout.truth (b : Bool) : Text := if b then "True" else "False"

mutual

/-- The layout with every part named. -/
def Layout.spell : Layout → Text
  | .integer kind =>
    "Integer(width=" ++ decimal kind.width ++ ", signed=" ++ Layout.truth kind.signed ++ ")"
  | .float kind => "Float(width=" ++ decimal kind.width ++ ")"
  | .rawAddress width => "RawAddress(width=" ++ decimal width.bytes ++ ")"
  | .pointer width inner =>
    "Pointer(width=" ++ decimal width.bytes ++ ", inner=" ++ inner.spell ++ ")"
  | .text length => "Text(length=" ++ decimal length ++ ")"
  | .wideText length => "WideText(length=" ++ decimal length ++ ")"
  | .struct fields => "Struct(fields=" ++ Layout.tuple (Layout.fieldsSpell fields) ++ ")"
  | .collection element count =>
    "Collection(element=" ++ element.spell ++ ", count=" ++ decimal count ++ ")"
  | .foreign v => v.spell

/-- Each field as a pair of its offset and the rest. -/
def Layout.fieldsSpell : List (Field Layout) → List Text
  | [] => []
  | f :: rest =>
    ("(" ++ decimal f.offset ++ ", Field(name=" ++ f.name.quoted ++ ", type=" ++ f.type.spell ++
      "))") :: Layout.fieldsSpell rest

/-- The value with its texts between quotes. -/
def Value.spell : Value → Text
  | .unit => "None"
  | .bool b => Layout.truth b
  | .int n => decimal n
  | .float x _ => x.render
  | .text t => t.quoted
  | .array items => "[" ++ Text.join ", " (Value.itemsSpell items) ++ "]"
  | .record entries => "\x7b" ++ Text.join ", " (Value.entriesSpell entries) ++ "\x7d"
  | .address location => "Address(" ++ hex location ++ ")"
  | .pointer target location _ =>
    "TypedPointer(" ++ target.render ++ ", " ++ hex location ++ ")"
  | .type layout => layout.spell
  | .bytes data => Text.quotedBytes data
  | .memory => Host.memoryText

/-- Each item in full form. -/
def Value.itemsSpell : List Value → List Text
  | [] => []
  | v :: rest => v.spell :: Value.itemsSpell rest

/-- Each entry as its name and its value, both in full form. -/
def Value.entriesSpell : List (Entry Value) → List Text
  | [] => []
  | e :: rest => (e.name.quoted ++ ": " ++ e.value.spell) :: Value.entriesSpell rest

end

/-! ### What cannot be shown -/

/-- The failure to spell this number, if it is one. -/
def numeralFault? (n : Int) : Option Error :=
  if Numeral.isSpellable n then none else some (.failure .longNumeral)

mutual

/-- Why the layout has no script form, if it has none. -/
def Layout.renderFault? : Layout → Option Error
  | .pointer _ inner => inner.renderFault?
  | .text length => numeralFault? length
  | .wideText length => numeralFault? length
  | .struct fields => Layout.fieldsRenderFault? fields
  | .collection element count => element.renderFault?.or (numeralFault? count)
  -- What is no layout is shown in the failure that refuses it.
  | .foreign v => some (v.spellFault?.getD (.notALayout v.spell))
  | _ => none

/-- Why one of the fields has no script form, if one has none. -/
def Layout.fieldsRenderFault? : List (Field Layout) → Option Error
  | [] => none
  | f :: rest =>
    ((numeralFault? f.offset).or f.type.renderFault?).or (Layout.fieldsRenderFault? rest)

/-- Why the layout has no full form, if it has none. -/
def Layout.spellFault? : Layout → Option Error
  | .pointer _ inner => inner.spellFault?
  | .text length => numeralFault? length
  | .wideText length => numeralFault? length
  | .struct fields => Layout.fieldsSpellFault? fields
  | .collection element count => element.spellFault?.or (numeralFault? count)
  | .foreign v => v.spellFault?
  | _ => none

/-- Why one of the fields has no full form, if one has none. -/
def Layout.fieldsSpellFault? : List (Field Layout) → Option Error
  | [] => none
  | f :: rest =>
    ((numeralFault? f.offset).or f.type.spellFault?).or (Layout.fieldsSpellFault? rest)

/-- Why the value has no full form, if it has none. -/
def Value.spellFault? : Value → Option Error
  | .int n => numeralFault? n
  | .array items => Value.itemsSpellFault? items
  | .record entries => Value.entriesSpellFault? entries
  | .pointer target _ _ => target.renderFault?
  | .type layout => layout.spellFault?
  | _ => none

/-- Why one of the items has no full form, if one has none. -/
def Value.itemsSpellFault? : List Value → Option Error
  | [] => none
  | v :: rest => v.spellFault?.or (Value.itemsSpellFault? rest)

/-- Why the value of one of the entries has no full form, if one has none. -/
def Value.entriesSpellFault? : List (Entry Value) → Option Error
  | [] => none
  | e :: rest => e.value.spellFault?.or (Value.entriesSpellFault? rest)

end

/-! ### Both together -/

/-- The text, unless there is a fault. -/
def shownUnless (fault : Option Error) (t : Text) : Except Error Text :=
  match fault with
  | some e => .error e
  | none => .ok t

/-- **The full form of a value**, if it has one. -/
def Value.spelled (v : Value) : Except Error Text :=
  shownUnless v.spellFault? v.spell

namespace Layout

/-- **The script form of a layout**, if it has one. -/
def describe (l : Layout) : Except Error Text :=
  shownUnless l.renderFault? l.render

/-- The full form of a layout, if it has one. -/
def spelled (l : Layout) : Except Error Text :=
  shownUnless l.spellFault? l.spell

/-- Why a value in the place of a layout is refused: it is no layout, and may not even
have a form to be told of in. -/
def refusal (v : Value) : Error :=
  v.spellFault?.getD (.notALayout v.spell)

/-- The size in bytes, unless a value in the place of a layout leaves it open. -/
def size? (l : Layout) : Except Error Nat :=
  match l.stray? with
  | some v => .error (refusal v)
  | none => .ok l.size

end Layout

end TypedMemory
