import TypedMemory.Value.Address
import TypedMemory.Value.Render

/-!
# What scripts can do with values

The functions, members, indices and operators of the script language, as functions on
values. Each asks for the kinds of values it works on and refuses any other by name;
none of them touches memory.
-/

namespace TypedMemory

namespace Value

variable [Host]

/-- Refuse to evaluate. -/
def refuse {α : Type} (cause : EvaluationCause) : Except Error α :=
  Error.fail (.evaluation cause)

/-! ### Asking for a kind of value -/

/-- A whole number. -/
def expectInt (what : Text) : Value → Except Error Int
  | int n => .ok n
  | v => refuse (.notAnInteger what v.kind)

/-- A whole number that is not negative. -/
def expectCount (what : Text) (v : Value) : Except Error Nat := do
  let n ← v.expectInt what
  if n < 0 then refuse (.negative what n) else pure n.toNat

/-- A layout. -/
def expectLayout (what : Text) : Value → Except Error Layout
  | type l => .ok l
  | v => refuse (.notAType what v.kind)

/-- A location: of an address, with or without a layout, or of a whole number. -/
def expectLocation (what : Text) : Value → Except Error Nat
  | pointer _ location _ => .ok location
  | address location => .ok location
  | int n => .ok n.natAbs
  | v => refuse (.notAnAddress what v.kind)

/-! ### Functions -/

/-- The functions of one argument. -/
inductive Unary
  | address
  | text
  | wideText
  | pointerType (width : AddressWidth)
  | struct
  | size
  | toText
  deriving DecidableEq

/-- What a function of one argument gives. -/
def Unary.apply : Unary → Value → Except Error Value
  | address, v => do
    let n ← v.expectInt "addr"
    pure (.address n.natAbs)
  | text, v => do
    let length ← v.expectCount "Text length"
    pure (.type (.text length))
  | wideText, v => do
    let length ← v.expectCount "WideText length"
    pure (.type (.wideText length))
  | pointerType width, v => do
    let inner ← v.expectLayout ("Pointer" ++ width.bits ++ " target")
    pure (.type (.pointer width inner))
  | struct, .type (.struct fields) => .ok (.type (.struct fields))
  | struct, v => refuse (.notAStruct v.kind)
  | size, v => do
    let l ← v.expectLayout "size_of argument"
    let size ← l.size?
    pure (.int size)
  | toText, v => v.toText.map Value.text

/-- The functions of two arguments. -/
inductive Binary
  | pointer
  | collection
  deriving DecidableEq

/-- What a function of two arguments gives. -/
def Binary.apply : Binary → Value → Value → Except Error Value
  | pointer, v, w => do
    let target ← v.expectLayout "ptr type"
    let location ← w.expectLocation "ptr address"
    pure (.pointer target location none)
  | collection, v, w => do
    let element ← v.expectLayout "Collection element"
    let count ← w.expectCount "Collection count"
    pure (.type (.collection element count))

/-- A function of the script language. -/
inductive Function
  | unary (f : Unary)
  | binary (f : Binary)
  deriving DecidableEq

/-- The functions by name. -/
def functions : List (Text × Function) := [
  ("addr", .unary .address), ("ptr", .binary .pointer), ("Text", .unary .text),
  ("WideText", .unary .wideText), ("Pointer32", .unary (.pointerType .narrow)),
  ("Pointer64", .unary (.pointerType .wide)), ("Collection", .binary .collection),
  ("Struct", .unary .struct), ("size_of", .unary .size), ("to_string", .unary .toText)]

/-- **The call of a function by name.** -/
def call (name : Text) (arguments : List Value) : Except Error Value :=
  match functions.lookup name with
  | none => refuse (.undefinedFunction name)
  | some (.unary f) =>
    match arguments with
    | [v] => f.apply v
    | _ => refuse (.wrongArity name 1 arguments.length)
  | some (.binary f) =>
    match arguments with
    | [v, w] => f.apply v w
    | _ => refuse (.wrongArity name 2 arguments.length)

/-! ### Keys -/

mutual

/-- Whether a value can be a key: an array or a record is none, nor is what has one in the
place of a layout. -/
def isKey : Value → Bool
  | array _ => false
  | record _ => false
  | pointer target _ _ => layoutIsKey target
  | type layout => layoutIsKey layout
  | _ => true

/-- Whether a layout can be a key. -/
def layoutIsKey : Layout → Bool
  | .pointer _ inner => layoutIsKey inner
  | .struct fields => fieldsAreKeys fields
  | .collection element _ => layoutIsKey element
  | .foreign v => v.isKey
  | _ => true

/-- Whether the layouts of fields can be keys. -/
def fieldsAreKeys : List (Field Layout) → Bool
  | [] => true
  | f :: rest => layoutIsKey f.type && fieldsAreKeys rest

end

/-! ### Members and indices -/

/-- The member of a layout. -/
def layoutMember (l : Layout) (name : Text) : Except Error Value :=
  if name = "size" then (l.size?).map fun n => .int n
  else if name = "kind" then .ok (.text l.kindName)
  else if name = "native" then .ok (if l.isStruct then type l else unit)
  else refuse (.noAttribute "Type" name)

/-- **The member of a value.** -/
def member (v : Value) (name : Text) : Except Error Value :=
  match v with
  | record entries =>
    match lookup? entries name with
    | some v => .ok v
    | none => refuse (.noField name)
  | pointer target location _ =>
    if name = "addr" then .ok (address location)
    else if name = "type" then .ok target.toValue
    else refuse (.noAttribute v.kind name)
  | address location =>
    if name = "value" then .ok (int location) else refuse (.noAttribute v.kind name)
  | type l => layoutMember l name
  | v => refuse (.noAttribute v.kind name)

/-- The item of an array at an index that counts from the end if it is negative. -/
def item (items : List Value) (index : Int) : Except Error Value :=
  let place := if index < 0 then index + items.length else index
  match if place < 0 then none else items[place.toNat]? with
  | some v => .ok v
  | none => refuse (.indexOutOfRange index items.length)

/-- The entry of a record under a key. A key that is no text is the name of nothing. -/
def entry (entries : List (Entry Value)) (key : Value) : Except Error Value :=
  match key with
  | text name =>
    match lookup? entries name with
    | some v => .ok v
    | none => refuse (.noField name)
  | key =>
    if key.isKey then do
      let shown ← key.shown
      refuse (.noField shown)
    else .error (.failure .badKind)

/-- **The part of a value at an index or key.** -/
def part (v key : Value) : Except Error Value :=
  match v with
  | array items => do
    let index ← key.expectInt "array index"
    item items index
  | record entries => entry entries key
  | v => refuse (.notIndexable v.kind)

/-! ### Operators -/

-- What comes out of an operator is new, so it carries no tag.

/-- The value with the other sign. -/
def negate : Value → Except Error Value
  | int n => .ok (int (-n))
  | float x _ => .ok (float x.negate none)
  | v => refuse (.cannotNegate v.kind)

/-- A whole number as a floating point number, which it may be too large for. -/
def toFloat (n : Int) : Except Error Binary64 :=
  match Binary64.ofInt? n with
  | some x => .ok x
  | none => .error (.failure .tooLarge)

/-- The sum of two numbers, of two texts or of two arrays, one behind the other, or of
an address and a whole number. -/
def add : Value → Value → Except Error Value
  | address location, int n => plus (address location) (int n)
  | pointer target location tag, int n => plus (pointer target location tag) (int n)
  | int n, int k => .ok (int (n + k))
  | int n, float y _ => do
    let x ← toFloat n
    pure (float (x.add y) none)
  | float x _, int k => do
    let y ← toFloat k
    pure (float (x.add y) none)
  | float x _, float y _ => .ok (float (x.add y) none)
  | text s, text t => .ok (text (s ++ t))
  | array items, array more => .ok (array (items ++ more))
  | v, w => refuse (.cannotAdd v.kind w.kind)

/-- The difference of two numbers. -/
def sub : Value → Value → Except Error Value
  | int n, int k => .ok (int (n - k))
  | int n, float y _ => do
    let x ← toFloat n
    pure (float (x.sub y) none)
  | float x _, int k => do
    let y ← toFloat k
    pure (float (x.sub y) none)
  | float x _, float y _ => .ok (float (x.sub y) none)
  | v, w => refuse (.cannotSubtract v.kind w.kind)

end Value

end TypedMemory
