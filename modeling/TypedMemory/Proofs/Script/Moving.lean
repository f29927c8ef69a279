import TypedMemory.Proofs.Script.Relocation
import TypedMemory.Script.Native

/-!
# Scripts further on

A script that stands further on in a text, some lines below, has the same tokens at other
places (`TypedMemory.Token.scanFrom_moved`), and so the same statements at other places; and if
it is refused, it is refused for the same cause at another place
(`TypedMemory.Statement.parseRuns_moved`). The columns stay. To be further on is one relocation
of tokens, `TypedMemory.Shift.relocation`.

Running a statement does not ask where it stands (`TypedMemory.Engine.execute_moved`).
-/

namespace TypedMemory

/-- How far below a script stands: so many lines, and so many code points. -/
structure Shift where
  lines : Nat
  count : Nat

variable (d : Shift)

/-! ### What has a place -/

/-- The place, further on. -/
def Position.moved (p : Position) : Position := ⟨p.line + d.lines, p.column⟩

/-- The token, further on. -/
def Token.moved (t : Token) : Token :=
  { t with position := t.position.moved d, offset := t.offset + d.count }

/-- The piece, further on. -/
def Piece.moved (p : Piece) : Piece := { p with token := p.token.moved d }

@[simp] theorem Piece.kind_moved (p : Piece) : (p.moved d).kind = p.kind := rfl

@[simp] theorem Piece.text_moved (p : Piece) : (p.moved d).text = p.text := rfl

theorem Piece.literal_moved (p : Piece) : (p.moved d).literal = p.literal := rfl

/-- The statement, further on. Only the pieces of a form know their places. -/
def Statement.moved : Statement → Statement
  | .custom keyword pieces => .custom keyword (pieces.map (Piece.moved d))
  | s => s

/-- The failure, further on. Only parse errors know a place. -/
def Error.moved : Error → Error
  | .parse cause (some p) => .parse cause (some (p.moved d))
  | e => e

/-- **What comes of a script further on**: what is made of it by a map, or the failure with its
place. -/
def moveResult {α β : Type} (f : α → β) : Except Error α → Except Error β
  | .ok a => .ok (f a)
  | .error e => .error (e.moved d)

variable {d}

/-- A step that keeps to the map keeps to it behind a step that does. -/
theorem moveResult_bind {α α' β β' : Type} {f : α → α'} {g : β → β'} {h : α → Except Error β}
    {h' : α' → Except Error β'} (hstep : ∀ a, h' (f a) = moveResult d g (h a))
    (x : Except Error α) : (moveResult d f x >>= h') = moveResult d g (x >>= h) := by
  cases x with
  | error e => rfl
  | ok a => exact hstep a

/-! ### Scanning -/

theorem Position.behind_moved (p : Position) (t : Text) :
    (p.moved d).behind t = (p.behind t).moved d := by
  induction t generalizing p with
  | nil => rfl
  | cons c rest ih =>
    have hafter : (p.moved d).after c = (p.after c).moved d := by
      simp only [after, moved]
      split
      · rw [Nat.add_right_comm]
      · rfl
    exact (congrArg (Position.behind · rest) hafter).trans (ih (p.after c))

/-- **A text further on** has the same tokens further on. -/
theorem Token.scanFrom_moved (position : Position) (offset : Nat) (t : Text) :
    scanFrom (position.moved d) (offset + d.count) t =
      moveResult d (List.map (moved d)) (scanFrom position offset t) := by
  match t with
  | [] =>
    rw [scanFrom, scanFrom]
    rfl
  | c :: rest =>
    rw [scanFrom, scanFrom]
    split
    · rfl
    · next kind? length _ =>
      dsimp only
      rw [Position.behind_moved, Nat.add_right_comm, scanFrom_moved]
      refine moveResult_bind (fun more => ?_) _
      cases kind? <;> rfl
termination_by t.length
decreasing_by simp only [List.length_drop, List.length_cons]; omega

/-! ### Parsing -/

theorem Token.secondHalf_moved (t : Token) (rest : List Token) :
    (t.moved d).secondHalf (rest.map (moved d)) = (t.secondHalf rest).moved d := by
  cases rest with
  | nil => simp [secondHalf, Token.moved, Position.moved, Nat.add_right_comm]
  | cons next rest =>
    have hoffset : next.offset + d.count = t.offset + d.count + 2 ↔
        next.offset = t.offset + 2 := by omega
    simp [secondHalf, Token.moved, Position.moved, hoffset, Nat.add_right_comm]

variable (d)

/-- Further on is a relocation: what is told of a place is told of it further on. -/
def Shift.relocation : Relocation where
  token := Token.moved d
  kind_token _ := rfl
  text_token _ := rfl
  Tells e e' := e' = e.moved d
  tells_token _ _ := rfl
  tells_half t rest := by
    rw [Token.secondHalf_moved]
    rfl

variable {d}

theorem Relocation.Corresponds.eq_moveResult {α β : Type} {f : α → β} {x : Except Error α}
    {x' : Except Error β} (h : d.relocation.Corresponds f x x') : x' = moveResult d f x := by
  cases h with
  | ok a => rfl
  | error htells => exact congrArg Except.error htells

/-- The statements of tokens further on end where they did. -/
theorem Token.statements_moved (tokens : List Token) :
    statements (tokens.map (moved d)) = (statements tokens).map (List.map (moved d)) :=
  d.relocation.statements_map tokens

/-- **Statements further on** are the same statements further on. -/
theorem Statement.parseRuns_moved (forms : List StatementForm) (runs : List (List Token)) :
    parseRuns .tokens forms (runs.map (List.map (Token.moved d))) =
      moveResult d (List.map (Statement.moved d)) (parseRuns .tokens forms runs) := by
  have hstatement : d.relocation.statement = Statement.moved d := by
    funext st
    cases st <;> rfl
  rw [← hstatement]
  exact (Relocation.corresponds_parseRuns forms runs).eq_moveResult

/-! ### Running -/

namespace Native

theorem itemsOf_moved (block : Text) (pieces : List Piece) :
    itemsOf block (pieces.map (Piece.moved d)) = itemsOf block pieces := by
  match pieces with
  | [] => rfl
  | [head] =>
    rw [List.map_cons, itemsOf.eq_def, itemsOf.eq_def block [head]]
    rfl
  | head :: ⟨kind, token, tree⟩ :: rest =>
    have hrest := itemsOf_moved block rest
    have hliteral := Piece.literal_moved d ⟨kind, token, tree⟩
    rw [List.map_cons, List.map_cons, itemsOf.eq_def, itemsOf.eq_def block (head :: _)]
    simp only [Piece.kind_moved, Piece.text_moved, hliteral, hrest]
    cases kind <;> cases tree <;> simp only [Piece.moved, hrest] <;> rfl

/-- A declaration further on has the same items. -/
theorem items_moved (pieces : List Piece) :
    items (pieces.map (Piece.moved d)) = items pieces := by
  cases pieces with
  | nil => rfl
  | cons name rest =>
    rw [List.map_cons, items, items, itemsOf_moved]
    rfl

theorem declare_moved [Host] (options : Options) (s : Scope) (pieces : List Piece) :
    declare options s (pieces.map (Piece.moved d)) = declare options s pieces := by
  rw [declare, declare, items_moved]

end Native

namespace Engine

variable [Host]

/-- **A statement further on** does what it does. -/
theorem execute_moved (options : Options) (s : Scope) (st : Statement) :
    (standard options).execute s (st.moved d) = (standard options).execute s st := by
  cases st with
  | binding name value => rfl
  | expression value => rfl
  | custom keyword pieces =>
    rw [Statement.moved, execute, execute]
    split
    · next c hc =>
      rw [List.mem_singleton.mp (List.mem_of_find?_eq_some hc)]
      exact Native.declare_moved options s pieces
    · rfl

theorem executeAll_moved (options : Options) (v : Value) (s : Scope) (ss : List Statement) :
    (standard options).executeAll v s (ss.map (Statement.moved d)) =
      (standard options).executeAll v s ss := by
  induction ss generalizing v s with
  | nil => rfl
  | cons st rest ih =>
    simp only [List.map_cons, executeAll, execute_moved, ih]

end Engine

end TypedMemory
