import TypedMemory.Value.Basic

/-!
# Expressions

The expressions of scripts as trees. A number or string keeps the text it was written
with, so what a literal means, and whether it means anything, is settled only when it is
evaluated. Parentheses leave no trace.
-/

namespace TypedMemory

/-- An expression. -/
inductive Expr
  | var (name : Text)
  | integer (digits : Text)
  | hexNumber (digits : Text)
  | decimal (digits : Text)
  /-- A string with its quotes and escapes. -/
  | string (literal : Text)
  | bool (b : Bool)
  | record (entries : List (Entry Expr))
  | array (items : List Expr)
  | call (name : Text) (arguments : List Expr)
  | member (target : Expr) (name : Text)
  | methodCall (target : Expr) (name : Text) (arguments : List Expr)
  | index (target key : Expr)
  | neg (operand : Expr)
  | add (left right : Expr)
  | sub (left right : Expr)
  | eq (left right : Expr)
  | ne (left right : Expr)

namespace Expr

instance : Inhabited Expr := ⟨bool false⟩

/-- The rule of the grammar that makes an expression. -/
def rule : Expr → Text
  | var _ => "variable"
  | integer _ => "integer"
  | hexNumber _ => "hex_number"
  | decimal _ => "decimal"
  | string _ => "string"
  | bool true => "true"
  | bool false => "false"
  | record _ => "record"
  | array _ => "array"
  | call _ _ => "call"
  | member _ _ => "attribute"
  | methodCall _ _ _ => "method_call"
  | index _ _ => "index"
  | neg _ => "neg"
  | add _ _ => "add"
  | sub _ _ => "sub"
  | eq _ _ => "eq"
  | ne _ _ => "ne"

end Expr

end TypedMemory
