import TypedMemory.Script.Token.Scan

/-!
# Parsing a span of a script

A statement is parsed from the text between its first token and its last, and this text is read
once more, now **in context**: behind each token only some kinds of tokens are admitted, and only
these are looked for. So a word with a meaning of its own is a name where only a name can stand,
and a double `=` is a single one where only that can stand. Where nothing that is admitted starts,
the token that the scanner finds there is refused.

A parser says of its states what is admitted. It reads a text in this way
(`TypedMemory.Parser.read`), or takes tokens that are there already (`TypedMemory.Parser.run`).
The places in a span are told as the places in the script.
-/

namespace TypedMemory

/-! ### Tokens in context -/

namespace Token

/-- What else can be read where the scanner takes a token of this kind, and how many code points
of the text behind the first one it takes. -/
def otherwise? (kind : TokenKind) (rest : Text) (length : Nat) : Option (TokenKind × Nat) :=
  match kind with
  | .letWord | .trueWord | .falseWord => some (.name, length)
  | .hexNumber | .decimal => some (.int, runLength CodePoint.isDigit rest)
  | .equal => some (.assign, 0)
  | _ => none

/-- What starts with a code point where only some kinds of tokens are admitted. Blanks and
comments are, everywhere. -/
def lexemeAmong? (admits : TokenKind → Bool) (c : CodePoint) (rest : Text) :
    Option (Option TokenKind × Nat) :=
  match lexeme? c rest with
  | some (some kind, length) =>
    if admits kind then some (some kind, length)
    else
      match otherwise? kind rest length with
      | some (kind, length) => if admits kind then some (some kind, length) else none
      | none => none
  | found => found

/-- The second half of a double `=`, as it is refused: together with an `=` right
behind it. -/
def secondHalf (t : Token) (rest : List Token) : Token :=
  let continues : Bool := match rest with
    | next :: _ => next.offset = t.offset + 2 && (next.kind = .assign || next.kind = .equal)
    | [] => false
  { kind := if continues then .equal else .assign
    text := if continues then "==" else "="
    position := ⟨t.position.line, t.position.column + 1⟩
    offset := t.offset + 1 }

/-- The text from where the first of some tokens begins to where the last of them ends. -/
def slice (t : Text) (first last : Token) : Text :=
  (t.drop first.offset).take (last.offset + last.text.length - first.offset)

end Token

/-! ### Parsers -/

/-- What parses: it takes one token after another, and says at any time which kinds of tokens are
admitted next and what has been parsed if this is the end. -/
structure Parser (σ ρ : Type) where
  start : σ
  admits : σ → TokenKind → Bool
  /-- The move on a token, if there is one. -/
  step : σ → Token → Option σ
  result? : σ → Option ρ

namespace Parser

variable {σ ρ : Type} (p : Parser σ ρ)

/-- A token of this text cannot stand where it does. -/
def unexpected {α : Type} (text : Text) (position : Position) : Except Error α :=
  Error.fail (.parse (.unexpectedToken text) (some position))

/-- What has been parsed. An end where something is missing is told of the last token. -/
def finish (s : σ) (last : Position) : Except Error ρ :=
  match p.result? s with
  | some v => .ok v
  | none => Error.fail (.parse .unexpectedEnd (some last))

/-- What is refused where there is no move on a token: the token, or the second half of a double
`=` whose first half is admitted. -/
def refused (s : σ) (t : Token) (rest : List Token) : Token :=
  if t.kind = .equal ∧ p.admits s .assign then t.secondHalf rest else t

/-- Take the tokens; the position is that of the token before them. -/
def run (s : σ) (last : Position) : List Token → Except Error ρ
  | [] => p.finish s last
  | t :: rest =>
    match p.step s t with
    | some s => run s t.position rest
    | none => unexpected (p.refused s t rest).text (p.refused s t rest).position

/-- Read a text that stands at the given place, token by token. -/
def read (s : σ) (last position : Position) (offset : Nat) (t : Text) : Except Error ρ :=
  match t with
  | [] => p.finish s last
  | c :: rest =>
    match Token.lexemeAmong? (p.admits s) c rest with
    | some (kind?, length) =>
      let taken := c :: rest.take length
      match kind? with
      | none =>
        read s last (position.behind taken) (offset + taken.length) (rest.drop length)
      | some kind =>
        match p.step s ⟨kind, taken, position, offset⟩ with
        | some s =>
          read s position (position.behind taken) (offset + taken.length) (rest.drop length)
        | none => unexpected taken position
    | none =>
      match Token.lexeme? c rest with
      | some (_, length) => unexpected (c :: rest.take length) position
      | none => Error.fail (.parse (.unexpectedCharacter c) (some position))
termination_by t.length
decreasing_by all_goals simp only [List.length_drop, List.length_cons]; omega

end Parser

/-! ### Spans -/

/-- The place in a script of a place in a span of it, by where the span begins. -/
def Position.inside (p first : Position) : Position :=
  ⟨first.line + p.line - 1, if p.line = 1 then first.column + p.column - 1 else p.column⟩

/-- The failure in a script of a failure in a span of it. -/
def Error.inside (first : Position) : Error → Error
  | .parse cause (some p) => .parse cause (some (p.inside first))
  | e => e

/-- **Parse a span** of a script, from its first token to the last of the others. -/
def Parser.parseSpan {σ ρ : Type} (p : Parser σ ρ) (t : Text) (first : Token)
    (rest : List Token) : Except Error ρ :=
  let last := (first :: rest).getLast (List.cons_ne_nil _ _)
  (p.read p.start .start .start 0 (Token.slice t first last)).mapError (Error.inside first.position)

/-- Parse the tokens themselves. -/
def Parser.parseTokens {σ ρ : Type} (p : Parser σ ρ) (first : Token) (rest : List Token) :
    Except Error ρ :=
  p.run p.start first.position (first :: rest)

end TypedMemory
