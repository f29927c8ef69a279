import TypedMemory.Script.Expr
import TypedMemory.Script.Token

/-!
# Statements

A statement binds a name, or is just an expression, or begins with a **keyword** for
which a form is known. Such a form says, one piece at a time, what it expects next: a
token of some class, a token of given text, or a whole expression. It decides by the
symbols so far, the keyword first, and by the text of the next token.
-/

namespace TypedMemory

/-- What a form can expect next. -/
inductive Expectation
  | ident
  | int
  | symbol
  | expr
  /-- A token of this text. -/
  | literal (text : Text)
  deriving DecidableEq

namespace Expectation

/-- The classes of pieces by the marks that stand for them. -/
def marks : List (Text × Expectation) :=
  [("$ident$", ident), ("$int$", int), ("$symbol$", symbol), ("$expr$", expr)]

/-- What a text asks for: a class by its mark, or a token of that text. -/
def ofText (t : Text) : Expectation := (marks.lookup t).getD (literal t)

/-- The text that asks for this. -/
def text : Expectation → Text
  | ident => "$ident$"
  | int => "$int$"
  | symbol => "$symbol$"
  | expr => "$expr$"
  | literal text => text

/-- Whether a single token is what is expected. -/
def accepts : Expectation → Token → Bool
  | ident, t => t.kind = .name
  | int, t => t.kind = .int || t.kind = .hexNumber
  | symbol, t => !t.kind.isValue
  | expr, _ => false
  | literal text, t => t.text = text

/-- Whether what was expected is kept as a piece, or only passed. -/
def isKept : Expectation → Bool
  | literal _ => false
  | _ => true

end Expectation

/-- A piece of a statement: what was expected, the first token of what was found, and
the expression if it was one. -/
structure Piece where
  kind : Expectation
  token : Token
  tree : Option Expr := none

namespace Piece

/-- The text of the first token. -/
def text (p : Piece) : Text := p.token.text

/-- The number that an integer piece spells, none for any other piece. -/
def literal (p : Piece) : Except Error (Option Int) :=
  if p.kind = .int then
    match Numeral.read? (if p.token.kind = .hexNumber then .hexadecimal else .decimal) p.text with
    | some n => .ok (some n)
    | none => .error (.failure .badValue)
  else .ok none

end Piece

/-- A form of statements: the keyword they begin with, and what they expect next after
given symbols and before a token of given text, none where the statement is complete. -/
structure StatementForm where
  keyword : Text
  next : List Text → Text → Option Expectation

/-- A statement. -/
inductive Statement
  | binding (name : Text) (value : Expr)
  | expression (value : Expr)
  /-- A statement of the form with this keyword. -/
  | custom (keyword : Text) (pieces : List Piece)

end TypedMemory
