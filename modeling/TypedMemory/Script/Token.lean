import TypedMemory.Error

/-!
# Tokens of a script

A token is a piece of script text of one kind, and knows where it stands. The three
words with a meaning of their own are names by their letters, and count as names again
where only a name can stand.

The tokens of a script fall into **statements** at the semicolons outside of brackets.
-/

namespace TypedMemory

/-- What a token is. -/
inductive TokenKind
  | name
  | hexNumber
  | int
  | decimal
  | string
  | letWord
  | trueWord
  | falseWord
  | leftParen
  | rightParen
  | leftBrace
  | rightBrace
  /-- The opening of a record. -/
  | hashBrace
  | leftBracket
  | rightBracket
  | comma
  | colon
  | semicolon
  | dot
  | caret
  | plus
  | minus
  | equal
  | notEqual
  | assign
  deriving DecidableEq

namespace TokenKind

/-- The label of a kind. -/
def label : TokenKind → Text
  | name => "NAME"
  | hexNumber => "HEX_NUMBER"
  | int => "INT"
  | decimal => "DECIMAL"
  | string => "STRING"
  | letWord => "LET"
  | trueWord => "TRUE"
  | falseWord => "FALSE"
  | leftParen => "LPAR"
  | rightParen => "RPAR"
  | leftBrace => "LBRACE"
  | rightBrace => "RBRACE"
  | hashBrace => "HASH_LBRACE"
  | leftBracket => "LSQB"
  | rightBracket => "RSQB"
  | comma => "COMMA"
  | colon => "COLON"
  | semicolon => "SEMICOLON"
  | dot => "DOT"
  | caret => "CARET"
  | plus => "PLUS"
  | minus => "MINUS"
  | equal => "EQUAL"
  | notEqual => "NOT_EQUAL"
  | assign => "ASSIGN"

/-- Opens a bracket. -/
def isOpener : TokenKind → Bool
  | leftParen | leftBrace | hashBrace | leftBracket => true
  | _ => false

/-- Closes a bracket. -/
def isCloser : TokenKind → Bool
  | rightParen | rightBrace | rightBracket => true
  | _ => false

/-- Ends an expression in front of it, outside of brackets. -/
def endsExpression : TokenKind → Bool
  | comma => true
  | kind => kind.isCloser

/-- Stands for a value or a name, and not for a symbol. -/
def isValue : TokenKind → Bool
  | name | int | hexNumber | decimal | string | letWord | trueWord | falseWord => true
  | _ => false

/-- A name, or a word that reads as one where only a name can stand. -/
def isWord : TokenKind → Bool
  | name | letWord | trueWord | falseWord => true
  | _ => false

end TokenKind

/-- A piece of script text. -/
structure Token where
  kind : TokenKind
  text : Text
  position : Position
  /-- How many code points of the script stand before it. -/
  offset : Nat
  deriving DecidableEq

namespace Token

/-- How deep in brackets the text behind a token is, if the token is that deep. A
closing bracket too many does not count. -/
def depthAfter (depth : Nat) (t : Token) : Nat :=
  if t.kind.isOpener then depth + 1 else if t.kind.isCloser then depth - 1 else depth

/-- The runs of tokens between semicolons at depth zero, from the given depth on. There
is always at least one run. -/
def runs : Nat → List Token → List (List Token)
  | _, [] => [[]]
  | depth, t :: rest =>
    if t.kind = .semicolon ∧ depth = 0 then [] :: runs depth rest
    else
      match runs (t.depthAfter depth) rest with
      | [] => [[t]]
      | run :: more => (t :: run) :: more

/-- **The statements** that tokens fall into, without the empty ones. -/
def statements (tokens : List Token) : List (List Token) :=
  (runs 0 tokens).filter fun run => !run.isEmpty

/-- The tokens of an expression in front, from the given depth of brackets on, and those
behind it: it goes up to a comma or closing bracket outside of its own brackets. -/
def expressionSpan : Nat → List Token → List Token × List Token
  | _, [] => ([], [])
  | depth, t :: rest =>
    if depth = 0 ∧ t.kind.endsExpression then ([], t :: rest)
    else
      let (inside, behind) := expressionSpan (t.depthAfter depth) rest
      (t :: inside, behind)

end Token

end TypedMemory
