import TypedMemory.Script.Engine

/-!
# Native declarations

A native declaration names a struct and lists its items between braces:

    native Player { ^ 16, health: Int32, name: Text(32) }

An item is a **padding**, a caret and a number of bytes to skip, or a **field**, a name
and an expression for its layout. Fields are placed one behind another from offset zero
on. A field whose layout is a struct embeds that struct.

The declared name becomes a constant of the scope.
-/

namespace TypedMemory.Native

/-- The word that native declarations begin with. -/
def keyword : Text := "native"

/-- What a padding begins with. -/
def paddingMark : Text := "^"

/-! ### The form of a declaration -/

/-- The symbols of the item that is being read: those behind the last brace or comma. -/
def currentItem (symbols : List Text) : List Text :=
  (symbols.reverse.takeWhile fun s : Text => s ≠ "\x7b" ∧ s ≠ ",").reverse

/-- **What a declaration expects next**: its name, its opening brace, and then, item by
item, a caret and a number, or a name, a colon and an expression, until a brace closes
it. -/
def next (symbols : List Text) (lookAhead : Text) : Option Expectation :=
  if symbols.length = 1 then some .ident
  else if symbols.length = 2 then some (.literal "\x7b")
  else if symbols.getLast? = some ("\x7d" : Text) then none
  else
    match currentItem symbols with
    | [] => some (if lookAhead = paddingMark then .symbol else .ident)
    | [head] => some (if head = paddingMark then .int else .literal ":")
    | [head, _] =>
      if head ≠ paddingMark then some .expr
      else some (.literal (if lookAhead = "\x7d" then "\x7d" else ","))
    | _ => some (.literal (if lookAhead = "\x7d" then "\x7d" else ","))

/-- What a declaration expects next, where its keyword may be missing; then nothing can be
said. -/
def next? (symbols : List Text) (lookAhead : Text) : Except Error (Option Expectation) :=
  if symbols.isEmpty then .error (.failure .noItem) else .ok (next symbols lookAhead)

/-- The form of a declaration. -/
def form : StatementForm := ⟨keyword, next⟩

/-! ### The items of a declaration -/

/-- An item of a declaration. -/
inductive Item
  | padding (size : Int)
  | field (name : Text) (type : Expr)

/-- Refuse the pieces of a declaration. -/
def refuse {α : Type} (cause : ParseCause) : Except Error α :=
  Error.fail (.parse cause none)

/-- The items that pieces make in a declaration of the given name. -/
def itemsOf (block : Text) : List Piece → Except Error (List Item)
  | [] => .ok []
  | head :: rest =>
    if head.kind = .symbol ∧ head.text = paddingMark then
      match rest with
      | [] => refuse (.paddingNotLiteral block)
      | amount :: rest => do
        match ← amount.literal with
        | none => refuse (.paddingNotLiteral block)
        | some size =>
          let items ← itemsOf block rest
          pure (.padding size :: items)
    else if head.kind = .ident then
      match rest with
      | ⟨.expr, _, some type⟩ :: rest => do
        let items ← itemsOf block rest
        pure (.field head.text type :: items)
      | _ => refuse (.fieldWithoutType head.text block)
    else refuse (.unhandledPiece head.text block)

/-- The name and the items that the pieces of a declaration make: there has to be a name
and an item. -/
def items : List Piece → Except Error (Text × List Item)
  | [] => .error (.failure .noItem)
  | name :: rest => do
    let items ← itemsOf name.text rest
    if items.isEmpty then refuse (.emptyBlock name.text) else pure (name.text, items)

/-! ### The struct of a declaration -/

variable [Host]

/-- The layout of a field: the value of its expression, which has to be a layout. -/
def fieldLayout (block name : Text) (evaluate : Run Value) : Run Layout := fun m =>
  match evaluate m with
  | (.ok (.type l), m) => (.ok l, m)
  | (.ok v, m) => (Error.fail (.evaluation (.notAFieldType v.kind name block)), m)
  | (.error e, m) =>
    (.error (if e.isOwn then .unresolvedType name block e else e), m)

/-- Place items from an offset on, into a struct in the making. -/
def place (block : Text) (evaluate : Expr → Run Value) :
    StructBuilder → Int → List Item → Run StructBuilder
  | b, _, [] => pure b
  | b, offset, .padding size :: rest => place block evaluate b (offset + size) rest
  | b, offset, .field name type :: rest => do
    let l ← fieldLayout block name (evaluate type)
    let b ← Run.lift (b.insert ⟨offset, name, l⟩)
    let size ← Run.lift l.size?
    place block evaluate b (offset + size) rest

/-- **The struct that items make**, where expressions are evaluated by the given
action. -/
def compile (block : Text) (evaluate : Expr → Run Value) (policy : OverlapPolicy)
    (items : List Item) : Run Layout := do
  let b ← place block evaluate (.empty policy) 0 items
  Run.lift b.build

/-- Declare the struct that the pieces of a declaration make. -/
def declare (options : Options) (s : Scope) (pieces : List Piece) : Run (Value × Scope) := do
  let (name, items) ← Run.lift (items pieces)
  let l ← compile name (fun e => e.eval options s) options.policy items
  let size ← Run.lift l.size?
  -- The size is spelled in the note, and only then the name is bound.
  Run.lift (spellable size)
  Run.note [.declared name l.fields.length size]
  pure (.unit, s.withConstant name (.type l))

/-- Native declarations as a form of statements. -/
def customSyntax : CustomSyntax := { form with perform := declare }

end TypedMemory.Native

namespace TypedMemory

/-- An engine that knows native declarations. -/
def Engine.standard [Host] (options : Options) : Engine := ⟨options, [Native.customSyntax]⟩

end TypedMemory
