import TypedMemory.Script.Expr
import TypedMemory.Script.Parser

/-!
# From tokens to expressions

Expressions are parsed by a machine that takes one token after another. Its state is a
stack of **frames**, each an expression begun and waiting for a part, and a **mode** that
says what can come next: an operand, what can stand behind one, or a piece of a member
access or record. A token for which there is no move refuses the expression, and so
does an end where something is still missing.

From tight to loose: members, indices and calls, then unary minus, then `+` and `-` from
the left, then a single comparison. Accordingly what stands behind an operand first
completes the waiting frames that bind tighter, which are on top of the stack.

A word with a meaning of its own reads as a name where only a name can stand: behind a
point, as the name of an entry, and for `let` also where an operand can. What is admitted is known
from the mode, and from the bracket in front where that can be closed at once; whether there is
anything to close otherwise shows only when it is to be closed.
-/

namespace TypedMemory.Expr

/-- The sign between two terms. -/
inductive Sign
  | plus
  | minus
  deriving DecidableEq

/-- The sum or difference of two terms. -/
def Sign.apply : Sign → Expr → Expr → Expr
  | plus => add
  | minus => sub

/-- How two sides are compared. -/
inductive Comparison
  | equal
  | notEqual
  deriving DecidableEq

/-- The comparison of two sides. -/
def Comparison.apply : Comparison → Expr → Expr → Expr
  | equal => eq
  | notEqual => ne

/-- What takes arguments. -/
inductive Callee
  | function (name : Text)
  | method (target : Expr) (name : Text)

/-- The call of a function or method. -/
def Callee.apply : Callee → List Expr → Expr
  | function name => call name
  | method target name => methodCall target name

/-- An expression begun, waiting for an operand. -/
inductive Frame
  | negation
  | term (left : Expr) (sign : Sign)
  | side (left : Expr) (comparison : Comparison)
  | group
  /-- An array, and its items so far, the last first. -/
  | array (items : List Expr)
  /-- A call, and its arguments so far, the last first. -/
  | arguments (callee : Callee) (items : List Expr)
  | key (target : Expr)
  /-- The entry of this name in a record, and the entries before it, the last first. -/
  | entry (entries : List (Entry Expr)) (name : Text)

/-- What can come next. -/
inductive Mode
  /-- An operand; or, behind the opening bracket of a list, also the closing one. -/
  | operand (opened : Bool)
  /-- What can stand behind an operand; a name can also be called. -/
  | behind (value : Expr) (callee : Option Callee)
  /-- The name of a member. -/
  | member (target : Expr)
  /-- The name of an entry; or, behind the opening brace, also the closing one. -/
  | entryName (entries : List (Entry Expr)) (opened : Bool)
  /-- The colon behind the name of an entry. -/
  | colon (entries : List (Entry Expr)) (name : Text)

/-- The state of the machine. -/
structure State where
  stack : List Frame
  mode : Mode

namespace State

/-- The machine before the first token. -/
def initial : State := ⟨[], .operand false⟩

/-! ### Completing what binds tighter -/

/-- Complete the negations and terms on top of the stack with an operand. -/
def closeSum : List Frame → Expr → List Frame × Expr
  | .negation :: stack, v => closeSum stack (.neg v)
  | .term left sign :: stack, v => closeSum stack (sign.apply left v)
  | stack, v => (stack, v)

/-- Complete everything up to the innermost bracket with an operand. -/
def closeAll (stack : List Frame) (v : Expr) : List Frame × Expr :=
  match closeSum stack v with
  | (.side left comparison :: stack, v) => (stack, comparison.apply left v)
  | result => result

/-! ### The moves -/

/-- A complete operand. -/
def done (stack : List Frame) (v : Expr) : State := ⟨stack, .behind v none⟩

/-- The move where an operand can stand. -/
def stepOperand (stack : List Frame) (opened : Bool) (t : Token) : Option State :=
  match t.kind with
  -- A binding begins a statement and nothing else, so here its word is a name.
  | .name | .letWord => some ⟨stack, .behind (.var t.text) (some (.function t.text))⟩
  | .int => some (done stack (.integer t.text))
  | .hexNumber => some (done stack (.hexNumber t.text))
  | .decimal => some (done stack (.decimal t.text))
  | .string => some (done stack (.string t.text))
  | .trueWord => some (done stack (.bool true))
  | .falseWord => some (done stack (.bool false))
  | .minus => some ⟨.negation :: stack, .operand false⟩
  | .leftParen => some ⟨.group :: stack, .operand false⟩
  | .leftBracket => some ⟨.array [] :: stack, .operand true⟩
  | .hashBrace => some ⟨stack, .entryName [] true⟩
  | .rightParen =>
    match opened, stack with
    | true, .arguments callee [] :: stack => some (done stack (callee.apply []))
    | _, _ => none
  | .rightBracket =>
    match opened, stack with
    | true, .array [] :: stack => some (done stack (.array []))
    | _, _ => none
  | _ => none

/-- The move behind an operand. -/
def stepBehind (stack : List Frame) (v : Expr) (callee : Option Callee) (t : Token) :
    Option State :=
  match t.kind with
  | .dot => some ⟨stack, .member v⟩
  | .leftBracket => some ⟨.key v :: stack, .operand false⟩
  | .leftParen => callee.map fun callee => ⟨.arguments callee [] :: stack, .operand true⟩
  | .plus =>
    let (stack, v) := closeSum stack v
    some ⟨.term v .plus :: stack, .operand false⟩
  | .minus =>
    let (stack, v) := closeSum stack v
    some ⟨.term v .minus :: stack, .operand false⟩
  -- What is left on top after the sum is a comparison only if one is open already, and a
  -- second one cannot follow it.
  | .equal =>
    match closeSum stack v with
    | (.side _ _ :: _, _) => none
    | (stack, v) => some ⟨.side v .equal :: stack, .operand false⟩
  | .notEqual =>
    match closeSum stack v with
    | (.side _ _ :: _, _) => none
    | (stack, v) => some ⟨.side v .notEqual :: stack, .operand false⟩
  | .rightParen =>
    match closeAll stack v with
    | (.group :: stack, v) => some (done stack v)
    | (.arguments callee items :: stack, v) =>
      some (done stack (callee.apply (v :: items).reverse))
    | _ => none
  | .rightBracket =>
    match closeAll stack v with
    | (.array items :: stack, v) => some (done stack (.array (v :: items).reverse))
    | (.key target :: stack, v) => some (done stack (.index target v))
    | _ => none
  | .rightBrace =>
    match closeAll stack v with
    | (.entry entries name :: stack, v) =>
      some (done stack (.record (⟨name, v⟩ :: entries).reverse))
    | _ => none
  | .comma =>
    match closeAll stack v with
    | (.array items :: stack, v) => some ⟨.array (v :: items) :: stack, .operand false⟩
    | (.arguments callee items :: stack, v) =>
      some ⟨.arguments callee (v :: items) :: stack, .operand false⟩
    | (.entry entries name :: stack, v) =>
      some ⟨stack, .entryName (⟨name, v⟩ :: entries) false⟩
    | _ => none
  | _ => none

/-- The move of the machine on a token, if it has one. -/
def step (s : State) (t : Token) : Option State :=
  match s.mode with
  | .operand opened => stepOperand s.stack opened t
  | .behind v callee => stepBehind s.stack v callee t
  | .member target =>
    if t.kind.isWord then
      some ⟨s.stack, .behind (.member target t.text) (some (.method target t.text))⟩
    else none
  | .entryName entries opened =>
    if t.kind.isWord then some ⟨s.stack, .colon entries t.text⟩
    else if opened ∧ t.kind = .rightBrace then some (done s.stack (.record entries.reverse))
    else none
  | .colon entries name =>
    if t.kind = .colon then some ⟨.entry entries name :: s.stack, .operand false⟩ else none

/-- The expression, if the tokens may end here. -/
def result? (s : State) : Option Expr :=
  match s.mode with
  | .behind v _ =>
    match closeAll s.stack v with
    | ([], v) => some v
    | _ => none
  | _ => none

/-! ### What is admitted -/

/-- The kinds that begin an operand. -/
def beginsOperand : TokenKind → Bool
  | .name | .hexNumber | .int | .decimal | .string | .trueWord | .falseWord | .minus
  | .leftParen | .leftBracket | .hashBrace => true
  | _ => false

/-- The kinds that stand behind an operand, whatever it is. -/
def followsOperand : TokenKind → Bool
  | .dot | .leftBracket | .plus | .minus | .equal | .notEqual | .rightParen | .rightBracket
  | .rightBrace | .comma => true
  | _ => false

/-- A bracket of this kind closes an empty list that is open. -/
def closesEmpty : List Frame → TokenKind → Bool
  | .arguments _ [] :: _, .rightParen => true
  | .array [] :: _, .rightBracket => true
  | _, _ => false

/-- The kinds of tokens that are admitted next. -/
def admits (s : State) (kind : TokenKind) : Bool :=
  match s.mode with
  | .operand opened => beginsOperand kind || (opened && closesEmpty s.stack kind)
  | .behind _ callee => followsOperand kind || (callee.isSome && kind = .leftParen)
  | .member _ => kind = .name
  | .entryName _ opened => kind = .name || (opened && kind = .rightBrace)
  | .colon _ _ => kind = .colon

end State

/-- **The parser of expressions.** -/
def parser : Parser State Expr where
  start := .initial
  admits := State.admits
  step := State.step
  result? := State.result?

/-- The expression that tokens make. Where there are none, the end is told of the given place. -/
def parse (last : Position) (tokens : List Token) : Except Error Expr :=
  parser.run .initial last tokens

end TypedMemory.Expr
