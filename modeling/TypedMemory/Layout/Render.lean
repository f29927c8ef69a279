import TypedMemory.Layout.Basic
import TypedMemory.Numeral

/-!
# Layouts in script form

What a script would say to make a layout, as far as scripts have words for it; a struct
shows its fields between braces with their offsets. The function is total: whether the
layout can be shown at all is a question apart, which `Layout.describe` asks first.
-/

namespace TypedMemory.Layout

open Numeral (decimal)

/-- The layout as a script would say it. -/
def render : Layout → Text
  | pointer width inner => (pointer width inner).kindName ++ "(" ++ inner.render ++ ")"
  | text length => "Text(" ++ decimal length ++ ")"
  | wideText length => "WideText(" ++ decimal length ++ ")"
  | struct [] => "Struct \x7b\x7d"
  | struct fields => "Struct \x7b " ++ Text.join ", " (members fields) ++ " \x7d"
  | collection element count =>
    "Collection(" ++ element.render ++ ", " ++ decimal count ++ ")"
  | l => l.kindName
where
  /-- Each field as its offset, its name and its layout. -/
  members : List (Field Layout) → List Text
  | [] => []
  | f :: rest =>
    (decimal f.offset ++ ": " ++ f.name ++ ": " ++ f.type.render) :: members rest

end TypedMemory.Layout
