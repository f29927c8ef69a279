import TypedMemory.Script.Engine

/-!
# Statements from patterns

A form of statements can be given by a **pattern**, a row of steps of which each says
what is expected at its place, perhaps by the text of the next token. A statement of such
a form evaluates its expressions, gives a record of each of its pieces, and binds these
records as the variable `last`.
-/

namespace TypedMemory

/-- A step of a pattern. -/
inductive PatternStep
  | fixed (expected : Expectation)
  /-- What is expected before tokens of given texts, or behind `else` before any other;
  nothing ends the statement. -/
  | choice (cases : List (Entry (Option Expectation)))

namespace PatternStep

/-- What the step expects before a token of the given text. -/
def expected (lookAhead : Text) : PatternStep → Option Expectation
  | fixed expected => some expected
  | choice cases =>
    match cases.find? (·.name = lookAhead), cases.find? (·.name = ("else" : Text)) with
    | some case, _ => case.value
    | none, some case => case.value
    | none, none => none

/-- What a pattern expects after the given symbols. -/
def next (pattern : List PatternStep) (symbols : List Text) (lookAhead : Text) :
    Option Expectation :=
  (pattern[symbols.length - 1]?).bind (expected lookAhead)

/-- The record of a piece; an expression is evaluated. -/
def pieceRecord [Host] (options : Options) (s : Scope) (p : Piece) : Run Value := do
  let literal ← Run.lift p.literal
  let v ← match p.tree with
    | some e => e.eval options s
    | none => pure .unit
  pure (.record [
    ⟨"kind", .text p.kind.text⟩, ⟨"text", .text p.text⟩,
    ⟨"literal", (literal.map Value.int).getD .unit⟩, ⟨"value", v⟩])

/-- The records of pieces one after another. -/
def pieceRecords [Host] (options : Options) (s : Scope) : List Piece → Run (List Value)
  | [] => pure []
  | p :: rest => do
    let v ← pieceRecord options s p
    let vs ← pieceRecords options s rest
    pure (v :: vs)

/-- Give the records of the pieces, and bind them. -/
def perform [Host] (options : Options) (s : Scope) (pieces : List Piece) : Run (Value × Scope) := do
  let records ← pieceRecords options s pieces
  let s ← Run.lift (s.withVariable "last" (.array records))
  pure (.array records, s)

end PatternStep

/-- A form of statements given by a keyword and a pattern. -/
def CustomSyntax.ofPattern [Host] (keyword : Text) (pattern : List PatternStep) : CustomSyntax :=
  ⟨⟨keyword, PatternStep.next pattern⟩, PatternStep.perform⟩

end TypedMemory
