import TypedMemory.Script.Expr.Parse
import TypedMemory.Script.Statement

/-!
# The grammar of scripts

What an expression or a statement **is**, told without a parser: a derivation is a tree of
one constructor for each way the grammar has to put a phrase together, over tokens of the
kinds that it asks for.

    statement   let NAME = expression  |  expression
    expression  sum  |  sum (== | !=) sum
    sum         unary  |  sum (+ | -) unary
    unary       chain  |  - unary
    chain       atom  |  chain . NAME  |  chain . NAME ( [arguments] )  |  chain [ expression ]
    atom        NAME  |  literal  |  NAME ( [arguments] )  |  #{ [entries] }  |  [ [arguments] ]
                |  ( expression )
    arguments   expression  |  arguments , expression
    entries     entry  |  entries , entry
    entry       NAME : expression

The levels of the grammar are what binds tighter and what looser: a sum has unary operands and
grows to the left, a comparison has two sums and is no sum itself.

A derivation spells its tokens (`TypedMemory.Grammar.Expression.tokens`) and has a meaning, the
tree that it makes (`TypedMemory.Grammar.Expression.expr`). The meaning forgets parentheses,
and where a list is left out it has an empty one, which stands for nothing else
(`TypedMemory.Grammar.OptionalArguments.exprs_eq_nil_iff`).

The words with a meaning of their own are names where the grammar has no other use for them.
Behind a point, behind `let` and in front of a colon that is so for all three; where an operand
stands it is so for `let` alone, and there not for the first token of a statement.
-/

namespace TypedMemory.Grammar

open TypedMemory.Expr (Sign Comparison Callee)

/-- A token of one of these kinds. -/
abbrev Terminal (kinds : List TokenKind) : Type := {t : Token // t.kind ∈ kinds}

/-- A name where nothing else can stand. -/
abbrev Word : Type := Terminal [.name, .letWord, .trueWord, .falseWord]

/-- A name where an operand can stand. -/
abbrev Name : Type := Terminal [.name, .letWord]

/-! ### Derivations -/

mutual

/-- A sum, or a comparison of two. -/
inductive Expression
  | sum (s : Sum)
  | comparison (left : Sum) (sign : Terminal [.equal, .notEqual]) (right : Sum)

/-- Terms added up from the left. -/
inductive Sum
  | single (u : Unary)
  | more (left : Sum) (sign : Terminal [.plus, .minus]) (right : Unary)

/-- An operand behind any number of minus signs. -/
inductive Unary
  | chain (c : Chain)
  | negation (sign : Terminal [.minus]) (operand : Unary)

/-- An atom and what is asked of it: members, methods and parts. -/
inductive Chain
  | atom (a : Atom)
  | member (target : Chain) (dot : Terminal [.dot]) (name : Word)
  | methodCall (target : Chain) (dot : Terminal [.dot]) (name : Word)
      (opening : Terminal [.leftParen]) (arguments : OptionalArguments)
      (closing : Terminal [.rightParen])
  | index (target : Chain) (opening : Terminal [.leftBracket]) (key : Expression)
      (closing : Terminal [.rightBracket])

/-- What needs no other expression in front of it. -/
inductive Atom
  | name (n : Name)
  | literal (t : Terminal [.hexNumber, .int, .decimal, .string, .trueWord, .falseWord])
  | call (name : Name) (opening : Terminal [.leftParen]) (arguments : OptionalArguments)
      (closing : Terminal [.rightParen])
  | record (opening : Terminal [.hashBrace]) (entries : OptionalEntries)
      (closing : Terminal [.rightBrace])
  | array (opening : Terminal [.leftBracket]) (items : OptionalArguments)
      (closing : Terminal [.rightBracket])
  | group (opening : Terminal [.leftParen]) (e : Expression) (closing : Terminal [.rightParen])

/-- Expressions with commas between them. -/
inductive Arguments
  | single (e : Expression)
  | more (before : Arguments) (comma : Terminal [.comma]) (e : Expression)

/-- Expressions with commas between them, or none. -/
inductive OptionalArguments
  | absent
  | present (a : Arguments)

/-- Entries with commas between them. -/
inductive Entries
  | single (e : NamedExpression)
  | more (before : Entries) (comma : Terminal [.comma]) (e : NamedExpression)

/-- Entries with commas between them, or none. -/
inductive OptionalEntries
  | absent
  | present (entries : Entries)

/-- The entry of a record. -/
inductive NamedExpression
  | mk (name : Word) (colon : Terminal [.colon]) (value : Expression)

end

/-! ### The tokens of a derivation -/

mutual

/-- The tokens of an expression, in order. -/
@[simp] def Expression.tokens : Expression → List Token
  | .sum s => s.tokens
  | .comparison left sign right => left.tokens ++ sign.1 :: right.tokens

/-- The tokens of a sum, in order. -/
@[simp] def Sum.tokens : Sum → List Token
  | .single u => u.tokens
  | .more left sign right => left.tokens ++ sign.1 :: right.tokens

/-- The tokens of an operand with its signs, in order. -/
@[simp] def Unary.tokens : Unary → List Token
  | .chain c => c.tokens
  | .negation sign operand => sign.1 :: operand.tokens

/-- The tokens of an atom with what is asked of it, in order. -/
@[simp] def Chain.tokens : Chain → List Token
  | .atom a => a.tokens
  | .member target dot name => target.tokens ++ [dot.1, name.1]
  | .methodCall target dot name opening arguments closing =>
    target.tokens ++ dot.1 :: name.1 :: opening.1 :: arguments.tokens ++ [closing.1]
  | .index target opening key closing => target.tokens ++ opening.1 :: key.tokens ++ [closing.1]

/-- The tokens of an atom, in order. -/
@[simp] def Atom.tokens : Atom → List Token
  | .name n => [n.1]
  | .literal t => [t.1]
  | .call name opening arguments closing =>
    name.1 :: opening.1 :: arguments.tokens ++ [closing.1]
  | .record opening entries closing => opening.1 :: entries.tokens ++ [closing.1]
  | .array opening items closing => opening.1 :: items.tokens ++ [closing.1]
  | .group opening e closing => opening.1 :: e.tokens ++ [closing.1]

/-- The tokens of arguments, in order. -/
@[simp] def Arguments.tokens : Arguments → List Token
  | .single e => e.tokens
  | .more before comma e => before.tokens ++ comma.1 :: e.tokens

/-- The tokens of arguments that may be left out, in order. -/
@[simp] def OptionalArguments.tokens : OptionalArguments → List Token
  | .absent => []
  | .present a => a.tokens

/-- The tokens of entries, in order. -/
@[simp] def Entries.tokens : Entries → List Token
  | .single e => e.tokens
  | .more before comma e => before.tokens ++ comma.1 :: e.tokens

/-- The tokens of entries that may be left out, in order. -/
@[simp] def OptionalEntries.tokens : OptionalEntries → List Token
  | .absent => []
  | .present entries => entries.tokens

/-- The tokens of an entry, in order. -/
@[simp] def NamedExpression.tokens : NamedExpression → List Token
  | .mk name colon value => name.1 :: colon.1 :: value.tokens

end

/-! ### What a derivation means -/

/-- The sign between two terms that a token spells. -/
def signOf (t : Token) : Sign := if t.kind = .plus then .plus else .minus

/-- The comparison that a token spells. -/
def comparisonOf (t : Token) : Comparison := if t.kind = .equal then .equal else .notEqual

/-- The literal that a token spells. -/
def literalOf (t : Token) : Expr :=
  match t.kind with
  | .hexNumber => .hexNumber t.text
  | .int => .integer t.text
  | .decimal => .decimal t.text
  | .trueWord => .bool true
  | .falseWord => .bool false
  | _ => .string t.text

mutual

/-- **The tree that an expression makes.** -/
@[simp] def Expression.expr : Expression → Expr
  | .sum s => s.expr
  | .comparison left sign right => (comparisonOf sign.1).apply left.expr right.expr

/-- The tree that a sum makes. -/
@[simp] def Sum.expr : Sum → Expr
  | .single u => u.expr
  | .more left sign right => (signOf sign.1).apply left.expr right.expr

/-- The tree that an operand with its signs makes. -/
@[simp] def Unary.expr : Unary → Expr
  | .chain c => c.expr
  | .negation _ operand => .neg operand.expr

/-- The tree that an atom with what is asked of it makes. -/
@[simp] def Chain.expr : Chain → Expr
  | .atom a => a.expr
  | .member target _ name => .member target.expr name.1.text
  | .methodCall target _ name _ arguments _ =>
    .methodCall target.expr name.1.text arguments.exprs
  | .index target _ key _ => .index target.expr key.expr

/-- The tree that an atom makes. -/
@[simp] def Atom.expr : Atom → Expr
  | .name n => .var n.1.text
  | .literal t => literalOf t.1
  | .call name _ arguments _ => .call name.1.text arguments.exprs
  | .record _ entries _ => .record entries.exprs
  | .array _ items _ => .array items.exprs
  | .group _ e _ => e.expr

/-- The trees that arguments make, in order. -/
@[simp] def Arguments.exprs : Arguments → List Expr
  | .single e => [e.expr]
  | .more before _ e => before.exprs ++ [e.expr]

/-- The trees that arguments make; none if they are left out. -/
@[simp] def OptionalArguments.exprs : OptionalArguments → List Expr
  | .absent => []
  | .present a => a.exprs

/-- The named trees that entries make, in order. -/
@[simp] def Entries.exprs : Entries → List (Entry Expr)
  | .single e => [e.entry]
  | .more before _ e => before.exprs ++ [e.entry]

/-- The named trees that entries make; none if they are left out. -/
@[simp] def OptionalEntries.exprs : OptionalEntries → List (Entry Expr)
  | .absent => []
  | .present entries => entries.exprs

/-- The named tree that an entry makes. -/
@[simp] def NamedExpression.entry : NamedExpression → Entry Expr
  | .mk name _ value => ⟨name.1.text, value.expr⟩

end

/-- No arguments in a tree are arguments left out. -/
theorem OptionalArguments.exprs_eq_nil_iff {a : OptionalArguments} :
    a.exprs = [] ↔ a = .absent := by
  match a with
  | .absent => simp
  | .present (.single e) => simp
  | .present (.more before comma e) => simp

/-- No entries in a tree are entries left out. -/
theorem OptionalEntries.exprs_eq_nil_iff {entries : OptionalEntries} :
    entries.exprs = [] ↔ entries = .absent := by
  match entries with
  | .absent => simp
  | .present (.single e) => simp
  | .present (.more before comma e) => simp

/-! ### Statements -/

/-- A statement without a form of its own. Where it is just an expression, this does not begin
with the word of a binding. -/
inductive Statement
  | binding (word : Terminal [.letWord]) (name : Word) (sign : Terminal [.assign])
      (value : Expression)
  | expression (value : Expression) (h : ∀ t ∈ value.tokens.head?, t.kind ≠ .letWord)

namespace Statement

/-- The tokens of a statement, in order. -/
@[simp] def tokens : Statement → List Token
  | binding word name sign value => word.1 :: name.1 :: sign.1 :: value.tokens
  | expression value _ => value.tokens

/-- **The statement that a derivation makes.** -/
@[simp] def statement : Statement → TypedMemory.Statement
  | binding _ name _ value => .binding name.1.text value.expr
  | expression value _ => .expression value.expr

end Statement

end TypedMemory.Grammar
