import TypedMemory.Script.Token

/-!
# From script text to tokens

A script is read from left to right. At each place the longest token is taken that can
start there; blanks and comments are passed over. A comment begins with two slashes and
goes on to the end of the line. Where nothing can start the script is refused with the
code point that stands there and its place; lines end at line feeds only.

A number with a point needs digits on both sides of it, and `0x` needs a digit behind
it, else the number ends before. A string goes to the next double quote that is not
behind a backslash, and not over the end of a line.
-/

namespace TypedMemory

/-- Where the text behind this code point stands. -/
def Position.after (p : Position) (c : CodePoint) : Position :=
  if c = '\n' then ⟨p.line + 1, 1⟩ else ⟨p.line, p.column + 1⟩

/-- Where the text behind this text stands. -/
def Position.behind (p : Position) (t : Text) : Position :=
  t.foldl Position.after p

/-- Where a script begins. -/
def Position.start : Position := ⟨1, 1⟩

namespace Token

/-! ### What can start at a place -/

/-- Space, tab, form feed and line ends. -/
def isBlank (c : CodePoint) : Bool :=
  c = ' ' || c = '\t' || c = '\x0c' || c = '\r' || c = '\n'

/-- What a name can start with. -/
def isNameStart (c : CodePoint) : Bool := c.isLetter || c = '_'

/-- What a name can go on with. -/
def isNamePart (c : CodePoint) : Bool := isNameStart c || c.isDigit

/-- A hexadecimal digit. -/
def isHexDigit (c : CodePoint) : Bool := c.hexDigit?.isSome

/-- How many code points in front are of a class. -/
def runLength (p : CodePoint → Bool) (t : Text) : Nat := (t.takeWhile p).length

/-- The kind of a name by its letters. -/
def nameKind (t : Text) : TokenKind :=
  if t = "let" then .letWord
  else if t = "true" then .trueWord
  else if t = "false" then .falseWord
  else .name

/-- How many code points a string takes behind its opening quote. -/
def stringLength? : Text → Option Nat
  | [] => none
  | c :: rest =>
    if c = '"' then some 1
    else if c = '\n' then none
    else if c = '\\' then
      match rest with
      | [] => none
      | d :: rest => if d = '\n' then none else (stringLength? rest).map (· + 2)
    else (stringLength? rest).map (· + 1)

/-- The kind of a number that starts with a digit, and how many code points it takes
behind that. -/
def numberShape (c : CodePoint) (rest : Text) : TokenKind × Nat :=
  -- Without a digit behind the mark the number is the zero alone.
  let hexLength := runLength isHexDigit (rest.drop 1)
  if c = '0' ∧ rest.head? = some ('x' : CodePoint) ∧ hexLength ≠ 0 then
    (.hexNumber, 1 + hexLength)
  else
    let whole := runLength CodePoint.isDigit rest
    let behind := rest.drop whole
    let places := runLength CodePoint.isDigit (behind.drop 1)
    if behind.head? = some ('.' : CodePoint) ∧ places ≠ 0 then (.decimal, whole + 1 + places)
    else (.int, whole)

/-- The symbols of one code point. -/
def symbols : List (CodePoint × TokenKind) := [
  ('(', .leftParen), (')', .rightParen), ('\x7b', .leftBrace), ('\x7d', .rightBrace),
  ('[', .leftBracket), (']', .rightBracket), (',', .comma), (':', .colon), (';', .semicolon),
  ('.', .dot), ('^', .caret), ('+', .plus), ('-', .minus), ('=', .assign)]

/-- The symbols of two code points. -/
def doubleSymbols : List ((CodePoint × CodePoint) × TokenKind) := [
  (('=', '='), .equal), (('!', '='), .notEqual), (('#', '\x7b'), .hashBrace)]

/-- The symbol that starts with a code point, and how many code points it takes behind
that. -/
def symbolShape? (c : CodePoint) (rest : Text) : Option (TokenKind × Nat) :=
  match rest.head?.bind fun d => doubleSymbols.lookup (c, d) with
  | some kind => some (kind, 1)
  | none => (symbols.lookup c).map fun kind => (kind, 0)

/-- What starts with a code point: a token of some kind, or something to pass over; and
how many code points it takes behind the first. -/
def lexeme? (c : CodePoint) (rest : Text) : Option (Option TokenKind × Nat) :=
  if isBlank c then some (none, 0)
  else if c = '/' ∧ rest.head? = some ('/' : CodePoint) then
    some (none, runLength (· ≠ ('\n' : CodePoint)) rest)
  else if isNameStart c then
    let length := runLength isNamePart rest
    some (some (nameKind (c :: rest.take length)), length)
  else if c.isDigit then
    let (kind, length) := numberShape c rest
    some (some kind, length)
  else if c = '"' then (stringLength? rest).map fun length => (some .string, length)
  else (symbolShape? c rest).map fun (kind, length) => (some kind, length)

/-! ### The tokens of a text -/

/-- The tokens of a text that stands at the given place of a script. -/
def scanFrom (position : Position) (offset : Nat) (t : Text) : Except Error (List Token) :=
  match t with
  | [] => .ok []
  | c :: rest =>
    match lexeme? c rest with
    | none => Error.fail (.parse (.unexpectedCharacter c) (some position))
    | some (kind?, length) => do
      let taken := c :: rest.take length
      let more ← scanFrom (position.behind taken) (offset + taken.length) (rest.drop length)
      match kind? with
      | none => pure more
      | some kind => pure (⟨kind, taken, position, offset⟩ :: more)
termination_by t.length
decreasing_by simp only [List.length_drop, List.length_cons]; omega

/-- **The tokens of a script.** -/
def scan (t : Text) : Except Error (List Token) :=
  scanFrom .start 0 t

end Token

end TypedMemory
