import TypedMemory.Script.Expr.Parse
import TypedMemory.Script.Statement

/-!
# From script text to statements

A script is scanned as a whole, its tokens fall into statements, and each statement is
parsed by itself: by the form of its keyword if it begins with one, else as a binding or
an expression. What is no piece of a form is parsed from its span of the script
(`TypedMemory.SpanParsers.slices`). A parse error has the place of the first token that cannot be
part of its statement, or of the last token where something is missing.

Behind a `let` and its name only a single `=` can stand, so that a double one there is
refused at its second half.
-/

namespace TypedMemory

/-! ### Bindings and expressions -/

namespace Statement

/-- How far a binding or an expression is parsed. -/
inductive State
  | start
  /-- Behind the word of a binding. -/
  | word
  | named (name : Text)
  /-- In an expression, which is the value of a binding if there is a name. -/
  | value (name? : Option Text) (s : Expr.State)

namespace State

/-- The kinds of tokens that are admitted next. -/
def admits : State → TokenKind → Bool
  | start, kind => kind = .letWord || Expr.State.initial.admits kind
  | word, kind => kind = .name
  | named _, kind => kind = .assign
  | value _ s, kind => s.admits kind

/-- The move on a token, if there is one. -/
def step : State → Token → Option State
  | start, t =>
    if t.kind = .letWord then some word else (Expr.State.initial.step t).map (value none)
  | word, t => if t.kind.isWord then some (named t.text) else none
  | named name, t => if t.kind = .assign then some (value (some name) .initial) else none
  | value name? s, t => (s.step t).map (value name?)

/-- The statement, if this is its end. -/
def result? : State → Option Statement
  | value (some name) s => s.result?.map (.binding name)
  | value none s => s.result?.map .expression
  | _ => none

end State

/-- **The parser of statements** without a form. -/
def parser : Parser State Statement where
  start := .start
  admits := State.admits
  step := State.step
  result? := State.result?

end Statement

/-! ### Spans -/

/-- How the spans of a script are parsed, from their first token and the others. -/
structure SpanParsers where
  statement : Token → List Token → Except Error Statement
  expression : Token → List Token → Except Error Expr

/-- **The spans of a script** are parsed from its text. -/
def SpanParsers.slices (t : Text) : SpanParsers where
  statement := Statement.parser.parseSpan t
  expression := Expr.parser.parseSpan t

/-- The spans are parsed from their tokens. -/
def SpanParsers.tokens : SpanParsers where
  statement := Statement.parser.parseTokens
  expression := Expr.parser.parseTokens

/-! ### Statements with a form -/

/-- What a form sees of the tokens to come: the text of the first, or the end mark. -/
def lookAhead : List Token → Text
  | [] => ";"
  | t :: _ => t.text

/-- An expression and what is behind it are all of the tokens. -/
theorem Token.expressionSpan_append (depth : Nat) (tokens : List Token) :
    (Token.expressionSpan depth tokens).1 ++ (Token.expressionSpan depth tokens).2 = tokens := by
  induction tokens generalizing depth with
  | nil => rfl
  | cons t rest ih =>
    simp only [Token.expressionSpan]
    split
    · rfl
    · simp [ih]

namespace StatementForm

/-- The pieces of a statement behind the given symbols. The place is that of the last
token of the statement. -/
def pieces (form : StatementForm) (spans : SpanParsers) (last : Position) (symbols : List Text)
    (tokens : List Token) : Except Error (List Piece) :=
  match form.next symbols (lookAhead tokens), tokens with
  | none, [] => .ok []
  | none, t :: _ => Error.fail (.parse (.trailing t.text form.keyword) (some t.position))
  | some expected, [] =>
    Error.fail (.parse (.statementEnded form.keyword expected.text) (some last))
  | some .expr, t :: rest =>
    match h : Token.expressionSpan 0 (t :: rest) with
    | ([], _) => Error.fail (.parse (.expectedExpression t.text) (some t.position))
    | (first :: inside, behind) =>
      have : behind.length < (t :: rest).length := by
        have := congrArg List.length (Token.expressionSpan_append 0 (t :: rest))
        rw [h] at this
        simp only [List.length_append, List.length_cons] at this ⊢
        omega
      do
        let tree ← spans.expression first inside
        let more ← pieces form spans last (symbols ++ [Expectation.expr.text]) behind
        pure (⟨.expr, t, some tree⟩ :: more)
  | some expected, t :: rest =>
    if expected.accepts t then do
      let more ← pieces form spans last (symbols ++ [t.text]) rest
      pure (if expected.isKept then ⟨expected, t, none⟩ :: more else more)
    else
      Error.fail
        (.parse (.expectedPiece expected.text form.keyword t.text) (some t.position))
termination_by tokens.length
decreasing_by all_goals simp_all

end StatementForm

/-! ### Scripts -/

namespace Statement

/-- The place of the last token, if there is one. -/
def lastPosition (first : Token) (rest : List Token) : Position :=
  ((first :: rest).getLast (by simp)).position

/-- The form of the keyword that a statement begins with, if it begins with one. -/
def form? (forms : List StatementForm) (t : Token) : Option StatementForm :=
  if t.kind = .name then forms.find? fun form => form.keyword = t.text else none

/-- One statement, from its first token and the others. -/
def parseOne (spans : SpanParsers) (forms : List StatementForm) (first : Token)
    (rest : List Token) : Except Error Statement :=
  match form? forms first with
  | some form => do
    let pieces ← form.pieces spans (lastPosition first rest) [form.keyword] rest
    pure (.custom form.keyword pieces)
  | none => spans.statement first rest

/-- Statements one after another, given by their tokens. -/
def parseRuns (spans : SpanParsers) (forms : List StatementForm) :
    List (List Token) → Except Error (List Statement)
  | [] => .ok []
  | [] :: runs => parseRuns spans forms runs
  | (first :: rest) :: runs => do
    let statement ← parseOne spans forms first rest
    let more ← parseRuns spans forms runs
    pure (statement :: more)

/-- **The statements of a script**, where keywords have the given forms. -/
def parse (forms : List StatementForm) (t : Text) : Except Error (List Statement) := do
  let tokens ← Token.scan t
  parseRuns (.slices t) forms (Token.statements tokens)

end Statement

end TypedMemory
