import TypedMemory.Error
import TypedMemory.Value.Basic

/-!
# Scopes

A scope binds names to values, in the order in which the names were first bound. Some of
the names are **constants**: those cannot be bound as variables any more, but can be
declared as constants again. Binding gives a new scope, so a statement that fails leaves
the old one as it was.

A value can be met twice only through a name. So it is at binding that whatever does not
equal itself gets the tag by which it is known again, and the scope counts the tags given
out.
-/

namespace TypedMemory

/-- Names bound to values. -/
structure Scope where
  bindings : List (Entry Value)
  constants : List Text
  /-- The tag that is given out next. -/
  nextTag : Nat

namespace Scope

/-- The scope without names. -/
def empty : Scope := ⟨[], [], 0⟩

/-- The value of a name. -/
def get? (s : Scope) (name : Text) : Option Value := Value.lookup? s.bindings name

/-- Whether a name is bound. -/
def contains (s : Scope) (name : Text) : Bool := (s.get? name).isSome

/-- Whether a name is a constant. -/
def isConstant (s : Scope) (name : Text) : Bool := s.constants.contains name

/-- The bound names in order. -/
def names (s : Scope) : List Text := s.bindings.map Entry.name

/-- The scope with a name bound to a value, tagged. -/
def bind (s : Scope) (name : Text) (v : Value) : Scope :=
  let (v, next) := v.tagged s.nextTag
  { s with bindings := Value.bind s.bindings name v, nextTag := next }

/-- The scope with a name as a constant. -/
def withConstant (s : Scope) (name : Text) (v : Value) : Scope :=
  { s.bind name v with constants := if s.isConstant name then s.constants else name :: s.constants }

/-- The scope with a name as a variable, which a constant cannot be. -/
def withVariable (s : Scope) (name : Text) (v : Value) : Except Error Scope :=
  if s.isConstant name then Error.fail (.evaluation (.constant name))
  else .ok (s.bind name v)

/-- The names of a scope as text. -/
def render (s : Scope) : Text := "Scope(" ++ Text.join ", " s.names ++ ")"

end Scope

end TypedMemory
