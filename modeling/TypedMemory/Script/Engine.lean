import TypedMemory.Script.Eval
import TypedMemory.Script.Parse

/-!
# Running scripts

An engine knows the options and the forms of statements beyond bindings and expressions.
It parses a script **completely** before its first statement runs, so where anything does
not parse nothing is evaluated. Then the statements run one after another, each in the
scope that the one before has left, and the value of the script is that of the last.
-/

namespace TypedMemory

/-- A form of statements, and what they do: from their pieces a value and a scope. -/
structure CustomSyntax extends StatementForm where
  perform : Options → Scope → List Piece → Run (Value × Scope)

/-- What runs scripts. The syntax registered last for a keyword comes first. -/
structure Engine where
  options : Options
  syntaxes : List CustomSyntax

namespace Engine

/-- The engine with one more form of statements, in place of one with its keyword. -/
def register (engine : Engine) (c : CustomSyntax) : Engine :=
  { engine with syntaxes := c :: engine.syntaxes }

/-- The forms of statements. -/
def forms (engine : Engine) : List StatementForm :=
  engine.syntaxes.map CustomSyntax.toStatementForm

/-- The statements of a script. -/
def parse (engine : Engine) (t : Text) : Except Error (List Statement) :=
  Statement.parse engine.forms t

/-- What a statement gives and the scope it leaves. -/
def execute [Host] (engine : Engine) (s : Scope) : Statement → Run (Value × Scope)
  | .binding name value => do
    let v ← value.eval engine.options s
    Run.note [.bound name]
    let s ← Run.lift (s.withVariable name v)
    pure (.unit, s)
  | .expression value => do
    let v ← value.eval engine.options s
    pure (v, s)
  | .custom keyword pieces =>
    match engine.syntaxes.find? fun c => c.keyword = keyword with
    | some c => c.perform engine.options s pieces
    | none => pure (.unit, s)

/-- What statements one after another give, starting from a value for none at all. -/
def executeAll [Host] (engine : Engine) : Value → Scope → List Statement → Run (Value × Scope)
  | v, s, [] => pure (v, s)
  | _, s, statement :: rest => do
    let (v, s) ← engine.execute s statement
    engine.executeAll v s rest

/-- **Run a script** in a scope: its last value, and the scope it leaves. -/
def run [Host] (engine : Engine) (t : Text) (s : Scope) : Run (Value × Scope) := do
  let statements ← Run.lift (engine.parse t)
  Run.note [.evaluating statements.length]
  engine.executeAll .unit s statements

end Engine

end TypedMemory
