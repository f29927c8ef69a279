import Mathlib.Data.Bool.Basic
import TypedMemory.Proofs.Codec.History
import TypedMemory.Proofs.Script.Placement

/-!
# What scripts do to memory

There is one method that changes memory, and all it does is a history of writes. Everything else
that a script can do, to evaluate expressions and to declare structs, leaves memory alone. So all
that a run does to memory, whether it ends well, fails on the way or does not begin, is a history
of writes, and a script in which the method is not called does nothing to it
(`TypedMemory.Engine.run_memory`).

Both are one induction over expressions, for any relation on memories that is reflexive and
transitive and has in it what a write does, if the expression can write
(`TypedMemory.Expr.moves_eval`). Histories of writes are one such relation, and equality is the
other.
-/

namespace TypedMemory

open Effect

/-! ### Calls of a method -/

namespace Expr

mutual

/-- Whether a method of this name is called in the expression. -/
def callsMethod (name : Text) : Expr → Bool
  | record entries => entriesCallMethod name entries
  | array items => itemsCallMethod name items
  | call _ arguments => itemsCallMethod name arguments
  | member target _ => target.callsMethod name
  | methodCall target method arguments =>
    method = name || (target.callsMethod name || itemsCallMethod name arguments)
  | index target key => target.callsMethod name || key.callsMethod name
  | neg operand => operand.callsMethod name
  | add left right => left.callsMethod name || right.callsMethod name
  | sub left right => left.callsMethod name || right.callsMethod name
  | eq left right => left.callsMethod name || right.callsMethod name
  | ne left right => left.callsMethod name || right.callsMethod name
  | _ => false

/-- The same for one of several expressions. -/
def itemsCallMethod (name : Text) : List Expr → Bool
  | [] => false
  | e :: rest => e.callsMethod name || itemsCallMethod name rest

/-- The same for the expressions of entries. -/
def entriesCallMethod (name : Text) : List (Entry Expr) → Bool
  | [] => false
  | e :: rest => e.value.callsMethod name || entriesCallMethod name rest

end

end Expr

/-- Whether a method of this name is called in an expression of the statement. -/
def Statement.callsMethod (name : Text) : Statement → Bool
  | .binding _ value => value.callsMethod name
  | .expression value => value.callsMethod name
  | .custom _ pieces => pieces.any fun p => p.tree.any (·.callsMethod name)

/-- A method of this name is called in the script. One that does not parse has no calls. -/
def Engine.CallsMethod (engine : Engine) (t name : Text) : Prop :=
  ∃ statements, engine.parse t = .ok statements ∧
    ∃ st ∈ statements, st.callsMethod name = true

/-! ### Actions -/

namespace Run

variable {α : Type} {R : Memory → Memory → Prop}

/-- What the action does to memory is in the relation. -/
abbrev MovesMemory (R : Memory → Memory → Prop) (x : Run α) : Prop :=
  Moves (Function.onFun R Machine.memory) x

theorem moves_update (notes : Memory → List Log.Event) {f : Codec.Update α} (h : Moves R f) :
    MovesMemory R (Run.update notes f) :=
  fun m => h m.memory

/-- What is made of the result makes no difference to memory. -/
theorem moves_of_same_state {β : Type} {x : Run α} {y : Run β} (h : MovesMemory R x)
    (hsame : ∀ m, (y m).2 = (x m).2) : MovesMemory R y := by
  intro m
  rw [hsame m]
  exact h m

theorem moves_atRule (rule : Text) {x : Run α} (h : MovesMemory R x) :
    MovesMemory R (Run.atRule rule x) :=
  moves_of_same_state h fun m => by
    rw [atRule]
    split <;> simp [*]

variable [IsPreorder Memory R]

theorem moves_lift (r : Except Error α) : MovesMemory R (Run.lift r) :=
  moves_of_still fun _ => rfl

theorem moves_note (events : List Log.Event) : MovesMemory R (Run.note events) :=
  fun m => refl m.memory

theorem moves_inspect (notes : Memory → List Log.Event) (f : Memory → Except Error α) :
    MovesMemory R (Run.inspect notes f) :=
  fun m => refl m.memory

end Run

/-! ### Evaluation -/

namespace Expr

open Run

variable [Host] {options : Options} {R : Memory → Memory → Prop} [IsPreorder Memory R]

/-- The relation has in it what writing does. -/
def AllowsWrites (options : Options) (R : Memory → Memory → Prop) : Prop :=
  ∀ l location v, MovesMemory R (writeMemory options l location v)

theorem allowsWrites_history : AllowsWrites options Memory.History := fun l location v =>
  (moves_update _ (Codec.moves_write l (.address location) v)).bind fun _ => moves_pure

theorem moves_readMethod (arguments : List Value) :
    MovesMemory R (readMethod options arguments) := by
  rw [readMethod.eq_def]
  split
  · exact moves_inspect _ _
  · exact (moves_lift _).bind fun location => moves_inspect _ _
  · exact moves_lift _

theorem moves_writeMethod (h : AllowsWrites options R) (arguments : List Value) :
    MovesMemory R (writeMethod options arguments) := by
  rw [writeMethod.eq_def]
  split
  · exact h _ _ _
  · exact (moves_lift _).bind fun location => h _ location _
  · exact moves_lift _

theorem moves_callMethod (target : Value) (name : Text) (arguments : List Value)
    (h : name = "write" → AllowsWrites options R) :
    MovesMemory R (callMethod options target name arguments) := by
  rw [callMethod.eq_def]
  split
  · split
    · exact moves_readMethod arguments
    · split
      case isTrue hname => exact moves_writeMethod (h hname) arguments
      case isFalse => exact moves_lift _
  · exact moves_lift _

section Eval

variable {s : Scope}

mutual

/-- **What an expression does to memory**: what the writes do, if it can write at all. -/
theorem moves_eval (e : Expr) (h : e.callsMethod "write" = true → AllowsWrites options R) :
    MovesMemory R (e.eval options s) := by
  match e with
  | .var _ | .integer _ | .string _ => exact moves_atRule _ (moves_lift _)
  | .hexNumber _ | .decimal _ | .bool _ => exact moves_pure
  | .record entries => exact (moves_evalEntries entries h).bind fun _ => moves_pure
  | .array items => exact (moves_evalItems items h).bind fun _ => moves_pure
  | .call name arguments =>
    exact (moves_evalItems arguments h).bind fun values => moves_atRule _ (moves_lift _)
  | .member target name => exact (moves_eval target h).bind fun v => moves_atRule _ (moves_lift _)
  | .methodCall target name arguments =>
    exact (moves_eval target fun ht => h (Bool.or_inr (Bool.or_inl ht))).bind fun v =>
      (moves_evalItems arguments fun ha => h (Bool.or_inr (Bool.or_inr ha))).bind fun values =>
        moves_atRule _ (moves_callMethod v name values fun hname =>
          h (Bool.or_inl (decide_eq_true hname)))
  | .index target key =>
    exact (moves_eval target fun ht => h (Bool.or_inl ht)).bind fun v =>
      (moves_eval key fun hk => h (Bool.or_inr hk)).bind fun k => moves_atRule _ (moves_lift _)
  | .neg operand => exact (moves_eval operand h).bind fun v => moves_atRule _ (moves_lift _)
  | .add left right | .sub left right =>
    exact (moves_eval left fun hl => h (Bool.or_inl hl)).bind fun v =>
      (moves_eval right fun hr => h (Bool.or_inr hr)).bind fun w => moves_atRule _ (moves_lift _)
  | .eq left right | .ne left right =>
    exact (moves_eval left fun hl => h (Bool.or_inl hl)).bind fun v =>
      (moves_eval right fun hr => h (Bool.or_inr hr)).bind fun w => moves_pure

theorem moves_evalItems (items : List Expr)
    (h : itemsCallMethod "write" items = true → AllowsWrites options R) :
    MovesMemory R (eval.evalItems options s items) := by
  match items with
  | [] => exact moves_pure
  | e :: rest =>
    exact (moves_eval e fun he => h (Bool.or_inl he)).bind fun v =>
      (moves_evalItems rest fun hr => h (Bool.or_inr hr)).bind fun vs => moves_pure

theorem moves_evalEntries (entries : List (Entry Expr))
    (h : entriesCallMethod "write" entries = true → AllowsWrites options R) :
    MovesMemory R (eval.evalEntries options s entries) := by
  match entries with
  | [] => exact moves_pure
  | ⟨_, e⟩ :: rest =>
    exact (moves_eval e fun he => h (Bool.or_inl he)).bind fun v =>
      (moves_evalEntries rest fun hr => h (Bool.or_inr hr)).bind fun vs => moves_pure

end

end Eval

end Expr

/-! ### Declarations -/

namespace Native

open Run

variable [Host] {options : Options} {R : Memory → Memory → Prop}

theorem moves_fieldLayout {block name : Text} {x : Run Value} (h : MovesMemory R x) :
    MovesMemory R (fieldLayout block name x) :=
  moves_of_same_state h fun m => by
    rw [fieldLayout]
    split <;> simp [*]

variable [IsPreorder Memory R]

theorem moves_place {block : Text} {evaluate : Expr → Run Value} {items : List Item}
    (h : ∀ name type, .field name type ∈ items → MovesMemory R (evaluate type))
    (b : StructBuilder) (offset : Int) :
    MovesMemory R (place block evaluate b offset items) := by
  induction items generalizing b offset with
  | nil => exact moves_pure
  | cons item rest ih =>
    have hrest := ih fun name type hmem => h name type (List.mem_cons_of_mem item hmem)
    cases item with
    | padding size => exact hrest b (offset + size)
    | field name type =>
      exact (moves_fieldLayout (h name type List.mem_cons_self)).bind fun l =>
        (moves_lift _).bind fun b' => (moves_lift _).bind fun size => hrest b' (offset + size)

/-- **A declaration** does to memory what its expressions do. -/
theorem moves_declare {s : Scope} {pieces : List Piece}
    (h : pieces.any (fun p => p.tree.any (·.callsMethod "write")) = true →
      Expr.AllowsWrites options R) :
    MovesMemory R (declare options s pieces) := by
  have hitems : Gives (fun r => ∀ item ∈ r.2, item.IsOf pieces) (Run.lift (items pieces)) :=
    gives_lift fun r hr => isOf_of_items hr
  refine (moves_lift _).bind_of_gives hitems fun r hr => Moves.bind (Moves.bind ?_ fun b => ?_)
    fun l => (moves_lift _).bind fun size => (moves_lift _).bind fun _ =>
      (moves_note _).bind fun _ => moves_pure
  · refine moves_place (fun name type hmem => Expr.moves_eval type fun hcalls => h ?_) _ _
    obtain ⟨p, hp, htree⟩ := hr _ hmem
    refine List.any_eq_true.mpr ⟨p, hp, ?_⟩
    rw [htree]
    exact hcalls
  · exact moves_lift _

end Native

/-! ### Scripts -/

namespace Engine

open Run

section Runs

variable [Host] {options : Options} {R : Memory → Memory → Prop} [IsPreorder Memory R]

theorem moves_execute {st : Statement}
    (h : st.callsMethod "write" = true → Expr.AllowsWrites options R) (s : Scope) :
    MovesMemory R ((standard options).execute s st) := by
  cases st with
  | binding name value =>
    exact (Expr.moves_eval value h).bind fun v => (moves_note _).bind fun _ =>
      (moves_lift _).bind fun s' => moves_pure
  | expression value => exact (Expr.moves_eval value h).bind fun v => moves_pure
  | custom keyword pieces =>
    rw [execute]
    split
    case h_1 c hc =>
      obtain rfl := List.mem_singleton.mp (List.mem_of_find?_eq_some hc)
      exact Native.moves_declare h
    case h_2 => exact moves_pure

theorem moves_executeAll {statements : List Statement}
    (h : ∀ st ∈ statements, st.callsMethod "write" = true → Expr.AllowsWrites options R)
    (v : Value) (s : Scope) :
    MovesMemory R ((standard options).executeAll v s statements) := by
  induction statements generalizing v s with
  | nil => exact moves_pure
  | cons st rest ih =>
    rw [List.forall_mem_cons] at h
    exact (moves_execute h.1 s).bind fun r => ih h.2 r.1 r.2

/-- **What a run does to memory**: what the writes do, if the script can write at all. -/
theorem moves_run {t : Text}
    (h : (standard options).CallsMethod t "write" → Expr.AllowsWrites options R) (s : Scope) :
    MovesMemory R ((standard options).run t s) := by
  have hparse : Gives (fun statements => (standard options).parse t = .ok statements)
      (Run.lift ((standard options).parse t)) := gives_lift fun _ h => h
  refine (moves_lift _).bind_of_gives hparse fun statements hstatements =>
    (moves_note _).bind fun _ => moves_executeAll (fun st hst hcalls => ?_) _ _
  exact h ⟨statements, hstatements, st, hst, hcalls⟩

/-- **What a script can never do to memory.** All that a run does to it is a history of writes, in
whatever scope, and whether the run ends well, fails on the way, or does not begin because the
script does not parse. So memory stays where it is, as long as it is, and read-only if it is; memory
that is read-only keeps all of its bytes; and so does any memory if no method called `write` is
called in the script. -/
theorem run_memory (options : Options) (t : Text) (s : Scope) (m : Machine) :
    let memory := ((standard options).run t s m).2.memory
    Memory.History m.memory memory ∧ Memory.SameFrame m.memory memory ∧
      (m.memory.readOnly = true → memory = m.memory) ∧
      (¬(standard options).CallsMethod t "write" → memory = m.memory) := by
  intro memory
  have hhistory : Memory.History m.memory memory :=
    moves_run (fun _ => Expr.allowsWrites_history) s m
  refine ⟨hhistory, hhistory.sameFrame, hhistory.eq_of_readOnly, fun hcalls => ?_⟩
  have hsame : m.memory = memory := moves_run (R := Eq) (fun h => absurd h hcalls) s m
  exact hsame.symm

end Runs

/-- A byte that a script writes, unless the memory is read-only; and that another script only
reads. -/
theorem run_memory_one_byte :
    let s : Scope := ⟨[⟨"MEMORY", .memory⟩], [], 0⟩
    let m : Machine := ⟨{ bytes := [7] }, []⟩
    let frozen : Machine := ⟨{ bytes := [7], readOnly := true }, []⟩
    let writes : Text := "MEMORY.write(UInt8, 0, 1)"
    let reads : Text := "MEMORY.read(UInt8, 0)"
    ((standard {}).run writes s m).2.memory = { bytes := [1] } ∧
      ((standard {}).run writes s frozen).2.memory = frozen.memory ∧
      ¬(standard {}).CallsMethod reads "write" ∧
      ((standard {}).run reads s m).2.memory = m.memory := by
  intro s m frozen writes reads
  have hnone : ((standard {}).parse reads).toOption.all
      (fun statements => !statements.any (·.callsMethod "write")) = true := by decide +kernel
  have hreads : ¬(standard {}).CallsMethod reads "write" := by
    rintro ⟨statements, hparse, st, hst, hcalls⟩
    rw [hparse] at hnone
    have hany : statements.any (·.callsMethod "write") = true :=
      List.any_eq_true.mpr ⟨st, hst, hcalls⟩
    simp [Except.toOption, hany] at hnone
  exact ⟨by decide +kernel, (run_memory {} writes s frozen).2.2.1 rfl, hreads,
    (run_memory {} reads s m).2.2.2 hreads⟩

end Engine

end TypedMemory
