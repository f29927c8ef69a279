import TypedMemory.Binary64
import TypedMemory.Text

/-!
# Tables of text

A table sets texts in columns for a console of a given width. Every column is as wide as
its widest cell, with two blanks behind each cell. Where that is too wide for the
console, the widest columns give way first, down to the next widest, until the table
fits; what is still too much is then taken from all columns alike.

A cell that is too long for its column is broken between words over several lines, and a
word that is too long for a line by itself is cut, an ellipsis marking the cut. Running
text outside of tables is broken the same way, except that such a word goes on in the
next line.
-/

namespace TypedMemory.Table

/-! ### Breaking text into lines -/

/-- The blank between words. -/
def blank : CodePoint := ' '

/-- The text without the blanks at its end. -/
def trimEnd (t : Text) : Text := (t.reverse.dropWhile (· = blank)).reverse

/-- Put a code point in front of words, each of which has its blanks behind it. -/
def addToWords (c : CodePoint) : List Text → List Text
  | (d :: w) :: rest =>
    if c = blank ∧ d ≠ blank then [c] :: (d :: w) :: rest else (c :: d :: w) :: rest
  | words => [c] :: words

/-- The words of a text, each with the blanks behind it; the first also has those before
it. -/
def words (t : Text) : List Text :=
  match t.foldr addToWords [] with
  | [w] => if w.all (· = blank) then [] else [w]
  | w :: v :: rest => if w.all (· = blank) then (w ++ v) :: rest else w :: v :: rest
  | [] => []

/-- A word in pieces of the given width, the first of them of the given room. -/
def chop (width : Nat) : Nat → Text → List Text
  | _, [] => [[]]
  | room, c :: rest =>
    let pieces := chop width ((if room = 0 then width else room) - 1) rest
    let started := match pieces with
      | piece :: more => (c :: piece) :: more
      | [] => [[c]]
    if room = 0 then [] :: started else started

/-- Lines in the making: those that are complete, the last first, and the open one with
the room it takes. -/
structure Lines where
  complete : List Text
  current : Text
  used : Nat

namespace Lines

/-- Complete the open line, unless there is nothing at all yet. -/
def close (s : Lines) : Lines :=
  if s.complete.isEmpty ∧ s.current.isEmpty then s
  else ⟨s.current :: s.complete, [], 0⟩

/-- Open a line with a piece. -/
def start (s : Lines) (piece : Text) : Lines :=
  { s.close with current := piece, used := piece.length }

/-- Add a word where it fits: to the open line or to a new one. A word too long for any
line is folded over several, or left to be cut. -/
def add (width : Nat) (fold : Bool) (s : Lines) (word : Text) : Lines :=
  let length := (trimEnd word).length
  if s.used + length ≤ width then
    { s with current := s.current ++ word, used := s.used + word.length }
  else if width < length ∧ fold then (chop width width word).foldl start s
  else s.start word

end Lines

/-- The lines of a text at a width, without the blanks that stand out at their ends. -/
def wrap (width : Nat) (fold : Bool) (t : Text) : List Text :=
  let s := (words t).foldl (Lines.add width fold) ⟨[], [], 0⟩
  (s.current :: s.complete).reverse.map fun line =>
    let excess := line.length - width
    let blanks := line.length - (trimEnd line).length
    line.take (line.length - min blanks excess)

/-- The lines of running text on a console of a width. -/
def paragraph (width : Nat) (t : Text) : List Text := wrap width true t

/-! ### Cells -/

/-- A column: its title, and on which side its cells stand. -/
structure Column where
  title : Text
  alignRight : Bool

/-- A line cut to a width, with an ellipsis if anything is missing. -/
def cut (width : Nat) (line : Text) : Text :=
  if line.length ≤ width then line else line.take (width - 1) ++ "…"

/-- So many blanks. -/
def blanks (n : Nat) : Text := List.replicate n blank

/-- A line of a cell, filled up to the width on one side. -/
def align (right : Bool) (width : Nat) (line : Text) : Text :=
  if right then
    let line := cut width (trimEnd line)
    blanks (width - line.length) ++ line
  else
    let line := cut width line
    line ++ blanks (width - line.length)

/-- The lines of a cell in a column of the given width, the blanks behind it among it. -/
def cellLines (c : Column) (width : Nat) (cell : Text) : List Text :=
  (wrap (width - 2) false cell).map fun line => align c.alignRight (width - 2) line ++ blanks 2

/-! ### Widths of columns -/

/-- The room that columns take side by side. -/
def total (widths : List Nat) : Nat := widths.foldl (· + ·) 0

/-- Take an amount from the values whose share is one, as evenly as whole numbers allow
and at most the given limit from each; the count says how many values have a share. -/
def reduce : Nat → Nat → List (Nat × Nat × Nat) → List Nat
  | _, _, [] => []
  | amount, count, (share, limit, value) :: rest =>
    if share * limit ≠ 0 ∧ count ≠ 0 then
      let taken := min limit (roundedQuotient amount count)
      (value - taken) :: reduce (amount - taken) (count - 1) rest
    else value :: reduce amount count rest

/-- One round of narrowing: the widest columns give way down to the next widest, or as
far as is needed. -/
def narrow (excess : Nat) (widths : List Nat) : List Nat :=
  -- With all columns equally wide there is no next one, and they narrow down to nothing
  -- if need be.
  let widest := widths.foldl max 0
  let next := (widths.filter (· ≠ widest)).foldl max 0
  let limit := min excess (widest - next)
  let shares := widths.map fun w => ((if w = widest then 1 else 0), limit, w)
  reduce excess (widths.filter (· = widest)).length shares

/-- Narrow until the widths fit, in at most so many rounds. -/
def collapse (available : Nat) : Nat → List Nat → List Nat
  | 0, widths => widths
  | rounds + 1, widths =>
    if total widths ≤ available then widths
    else collapse available rounds (narrow (total widths - available) widths)

/-- The widths that columns of the given natural widths get on a console. -/
def fit (available : Nat) (widths : List Nat) : List Nat :=
  let narrowed := collapse available (total widths) widths
  if total narrowed ≤ available then narrowed
  else
    let count := (narrowed.filter (0 < ·)).length
    reduce (total narrowed - available) count (narrowed.map fun w => (1, w, w))

/-! ### The table -/

/-- The natural width of a column: that of its widest cell, with the blanks behind it,
but no more than the console has. -/
def naturalWidth (available : Nat) (cells : List Text) : Nat :=
  min available (cells.foldl (fun width cell => max width cell.length) 0 + 2)

/-- The cells of a column, its title first. -/
def cellsOf (columns : List Column) (rows : List (List Text)) : List (List Text) :=
  columns.mapIdx fun i c => c.title :: rows.map fun row => row.getD i []

/-- A row as lines: as many as its highest cell has. -/
def rowLines (columns : List Column) (widths : List Nat) (row : List Text) : List Text :=
  let cells := (columns.zip widths).mapIdx fun i (c, width) =>
    (width, cellLines c width (row.getD i []))
  let height := cells.foldl (fun h cell => max h cell.2.length) 0
  (List.range height).map fun k =>
    cells.flatMap fun (width, lines) => lines.getD k (blanks width)

/-- **The lines of a table** on a console of the given width. -/
def render (available : Nat) (columns : List Column) (rows : List (List Text)) : List Text :=
  let widths := fit available ((cellsOf columns rows).map (naturalWidth available))
  (columns.map Column.title :: rows).flatMap (rowLines columns widths)

end TypedMemory.Table
