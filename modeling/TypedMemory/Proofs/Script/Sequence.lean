import TypedMemory.Proofs.Script.Joining

/-!
# One script after another

A script that is two scripts with a semicolon on a line of its own between them does what the
two do, one after the other: it has the same value, leaves the same scope and the same memory,
and if one of the two fails it fails likewise, with what was done to memory up to there
(`TypedMemory.Engine.run_join`).

The notes are not the same, since each run notes how many statements it has. So the comparison
is of actions that are **alike**, `TypedMemory.Run.Alike`: from the same memory they end in the
same result and the same memory, whatever was noted. It is kept by everything that actions are
put together with, and it makes all notes equal; an evaluation is like itself, which says that
evaluating does not look at the notes (`TypedMemory.Expr.alike_eval`).
-/

namespace TypedMemory

open Effect

namespace Run

variable {α β : Type}

/-- **The actions do the same** but for the notes they take. -/
def Alike (x y : Run α) : Prop :=
  ∀ m m' : Machine, m.memory = m'.memory →
    (x m).1 = (y m').1 ∧ (x m).2.memory = (y m').2.memory

namespace Alike

theorem pure (a : α) : Alike (Pure.pure a : Run α) (Pure.pure a) := fun _ _ h => ⟨rfl, h⟩

theorem lift (r : Except Error α) : Alike (Run.lift r) (Run.lift r) := fun _ _ h => ⟨rfl, h⟩

/-- Notes are all alike. -/
theorem note (events events' : List Log.Event) : Alike (Run.note events) (Run.note events') :=
  fun _ _ h => ⟨rfl, h⟩

theorem inspect (notes notes' : Memory → List Log.Event) (f : Memory → Except Error α) :
    Alike (Run.inspect notes f) (Run.inspect notes' f) :=
  fun _ _ h => ⟨congrArg f h, h⟩

theorem update (notes notes' : Memory → List Log.Event) (f : Codec.Update α) :
    Alike (Run.update notes f) (Run.update notes' f) :=
  fun _ _ h => ⟨congrArg (fun m => (f m).1) h, congrArg (fun m => (f m).2) h⟩

theorem bind {x y : Run α} {f g : α → Run β} (hx : Alike x y) (hf : ∀ a, Alike (f a) (g a)) :
    Alike (x >>= f) (y >>= g) := by
  intro m m' h
  obtain ⟨hresult, hmemory⟩ := hx m m' h
  rw [bind_apply, bind_apply]
  rcases hm : x m with ⟨r, m₁⟩
  rcases hm' : y m' with ⟨r', m₁'⟩
  rw [hm, hm'] at hresult hmemory
  obtain rfl : r = r' := hresult
  cases r with
  | error e => exact ⟨rfl, hmemory⟩
  | ok a => exact hf a m₁ m₁' hmemory

/-- A note in between makes no difference. -/
theorem note_between {x y : Run α} (h : Alike x y) (events : List Log.Event) :
    Alike x (Run.note events >>= fun _ => y) :=
  fun m m' hm => h m { m' with log := m'.log ++ events } hm

theorem atRule {x y : Run α} (h : Alike x y) (rule : Text) :
    Alike (Run.atRule rule x) (Run.atRule rule y) := by
  intro m m' hm
  obtain ⟨hresult, hmemory⟩ := h m m' hm
  simp only [Run.atRule]
  rcases hx : x m with ⟨r, m₁⟩
  rcases hy : y m' with ⟨r', m₁'⟩
  rw [hx, hy] at hresult hmemory
  obtain rfl : r = r' := hresult
  cases r <;> exact ⟨rfl, hmemory⟩

end Alike

end Run

open Run (Alike)

/-! ### Evaluating does not look at the notes -/

namespace Expr

variable [Host] (options : Options)

theorem alike_readMemory (l : Layout) (location : Nat) :
    Alike (readMemory options l location) (readMemory options l location) :=
  .inspect _ _ _

theorem alike_writeMemory (l : Layout) (location : Nat) (v : Value) :
    Alike (writeMemory options l location v) (writeMemory options l location v) :=
  (Alike.update _ _ _).bind fun _ => .pure _

theorem alike_readMethod (arguments : List Value) :
    Alike (readMethod options arguments) (readMethod options arguments) := by
  unfold readMethod
  split
  · exact alike_readMemory options _ _
  · exact (Alike.lift _).bind fun location => alike_readMemory options _ location
  · exact .lift _

theorem alike_writeMethod (arguments : List Value) :
    Alike (writeMethod options arguments) (writeMethod options arguments) := by
  unfold writeMethod
  split
  · exact alike_writeMemory options _ _ _
  · exact (Alike.lift _).bind fun location => alike_writeMemory options _ location _
  · exact .lift _

theorem alike_callMethod (target : Value) (name : Text) (arguments : List Value) :
    Alike (callMethod options target name arguments)
      (callMethod options target name arguments) := by
  unfold callMethod
  split
  · split
    · exact alike_readMethod options arguments
    · split
      · exact alike_writeMethod options arguments
      · exact .lift _
  · exact .lift _

variable (s : Scope)

mutual

/-- **An evaluation** gives and does the same, whatever was noted before. -/
theorem alike_eval (e : Expr) : Alike (e.eval options s) (e.eval options s) := by
  match e with
  | .var _ | .integer _ | .string _ => exact (Alike.lift _).atRule _
  | .hexNumber _ | .decimal _ | .bool _ => exact .pure _
  | .record entries => exact (alike_evalEntries entries).bind fun _ => .pure _
  | .array items => exact (alike_evalItems items).bind fun _ => .pure _
  | .call name arguments =>
    exact (alike_evalItems arguments).bind fun _ => (Alike.lift _).atRule _
  | .member target name => exact (alike_eval target).bind fun _ => (Alike.lift _).atRule _
  | .methodCall target name arguments =>
    exact (alike_eval target).bind fun v => (alike_evalItems arguments).bind fun values =>
      (alike_callMethod options v name values).atRule _
  | .index target key =>
    exact (alike_eval target).bind fun _ => (alike_eval key).bind fun _ => (Alike.lift _).atRule _
  | .neg operand => exact (alike_eval operand).bind fun _ => (Alike.lift _).atRule _
  | .add left right | .sub left right =>
    exact (alike_eval left).bind fun _ => (alike_eval right).bind fun _ =>
      (Alike.lift _).atRule _
  | .eq left right | .ne left right =>
    exact (alike_eval left).bind fun _ => (alike_eval right).bind fun _ => .pure _

theorem alike_evalItems (items : List Expr) :
    Alike (eval.evalItems options s items) (eval.evalItems options s items) := by
  match items with
  | [] => exact .pure _
  | e :: rest =>
    exact (alike_eval e).bind fun _ => (alike_evalItems rest).bind fun _ => .pure _

theorem alike_evalEntries (entries : List (Entry Expr)) :
    Alike (eval.evalEntries options s entries) (eval.evalEntries options s entries) := by
  match entries with
  | [] => exact .pure _
  | ⟨name, e⟩ :: rest =>
    exact (alike_eval e).bind fun _ => (alike_evalEntries rest).bind fun _ => .pure _

end

end Expr

namespace Native

variable [Host]

theorem alike_fieldLayout (block name : Text) {x y : Run Value} (h : Alike x y) :
    Alike (fieldLayout block name x) (fieldLayout block name y) := by
  intro m m' hm
  obtain ⟨hresult, hmemory⟩ := h m m' hm
  simp only [fieldLayout]
  rcases hx : x m with ⟨r, m₁⟩
  rcases hy : y m' with ⟨r', m₁'⟩
  rw [hx, hy] at hresult hmemory
  obtain rfl : r = r' := hresult
  rcases r with e | v
  · exact ⟨rfl, hmemory⟩
  · cases v <;> exact ⟨rfl, hmemory⟩

theorem alike_place (block : Text) {evaluate : Expr → Run Value}
    (h : ∀ e, Alike (evaluate e) (evaluate e)) (b : StructBuilder) (offset : Int)
    (items : List Item) :
    Alike (place block evaluate b offset items) (place block evaluate b offset items) := by
  induction items generalizing b offset with
  | nil => exact .pure _
  | cons item rest ih =>
    cases item with
    | padding size => exact ih b (offset + size)
    | field name type =>
      exact (alike_fieldLayout block name (h type)).bind fun l => (Alike.lift _).bind fun b =>
        (Alike.lift _).bind fun size => ih b (offset + size)

theorem alike_declare (options : Options) (s : Scope) (pieces : List Piece) :
    Alike (declare options s pieces) (declare options s pieces) :=
  (Alike.lift _).bind fun r =>
    ((alike_place r.1 (Expr.alike_eval options s) _ _ r.2).bind fun _ => .lift _).bind fun _ =>
      (Alike.lift _).bind fun _ => (Alike.lift _).bind fun _ =>
        (Alike.note _ _).bind fun _ => .pure _

end Native

/-! ### Statements one after another -/

namespace Engine

section Alike

variable [Host] (options : Options)

theorem alike_execute (s : Scope) (st : Statement) :
    Alike ((standard options).execute s st) ((standard options).execute s st) := by
  cases st with
  | binding name value =>
    exact (Expr.alike_eval options s value).bind fun _ => (Alike.note _ _).bind fun _ =>
      (Alike.lift _).bind fun _ => .pure _
  | expression value => exact (Expr.alike_eval options s value).bind fun _ => .pure _
  | custom keyword pieces =>
    rw [execute]
    split
    · next c hc =>
      rw [List.mem_singleton.mp (List.mem_of_find?_eq_some hc)]
      exact Native.alike_declare options s pieces
    · exact .pure _

theorem alike_executeAll (v : Value) (s : Scope) (ss : List Statement) :
    Alike ((standard options).executeAll v s ss) ((standard options).executeAll v s ss) := by
  induction ss generalizing v s with
  | nil => exact .pure _
  | cons st rest ih => exact (alike_execute options s st).bind fun r => ih r.1 r.2

variable {options}

/-- Statements behind others start from the value and the scope that those leave. -/
theorem executeAll_append (engine : Engine) (v : Value) (s : Scope) (front back : List Statement) :
    engine.executeAll v s (front ++ back) =
      engine.executeAll v s front >>= fun r => engine.executeAll r.1 r.2 back := by
  induction front generalizing v s with
  | nil => exact (pure_bind (v, s) fun r => engine.executeAll r.1 r.2 back).symm
  | cons st rest ih =>
    simp only [List.cons_append, executeAll, bind_assoc, ih]

/-- What statements start from matters only if there are none. -/
theorem executeAll_eq (engine : Engine) (v w : Value) (s : Scope) (ss : List Statement) :
    engine.executeAll v s ss = engine.executeAll w s ss >>= fun r =>
      pure (if ss.isEmpty then v else r.1, r.2) := by
  cases ss with
  | nil => exact (pure_bind (w, s) fun r => pure (v, r.2)).symm
  | cons st rest => exact (bind_pure (engine.executeAll v s (st :: rest))).symm

/-- Running a script that reads as the statements is noting how many there are, and executing
them. -/
theorem run_eq {engine : Engine} {s : Text} {ss : List Statement} (h : engine.parse s = .ok ss)
    (scope : Scope) :
    engine.run s scope =
      Run.note [.evaluating ss.length] >>= fun _ => engine.executeAll .unit scope ss := by
  rw [run, h]
  rfl

/-- **Two scripts one behind the other** have the statements of the first and then those of the
second, further on; and running them is running the first, and then the second in the scope that
the first has left. The value is that of the second, or that of the first if the second has no
statements. -/
theorem run_join {s t : Text} {ss tt : List Statement}
    (hs : (standard options).parse s = .ok ss) (ht : (standard options).parse t = .ok tt) :
    (standard options).parse (s ++ joint ++ t) =
      .ok (ss ++ tt.map (Statement.moved (.behind s))) ∧
    ∀ scope, Alike ((standard options).run (s ++ joint ++ t) scope) (do
      let (v, scope) ← (standard options).run s scope
      let (w, scope) ← (standard options).run t scope
      pure (if tt.isEmpty then v else w, scope)) := by
  have hparse : (standard options).parse (s ++ joint ++ t) =
      .ok (ss ++ tt.map (Statement.moved (.behind s))) := by
    rw [parse_join hs, ht]
    rfl
  refine ⟨hparse, fun scope => ?_⟩
  rw [run_eq hparse, run_eq hs, executeAll_append, bind_assoc]
  refine (Alike.note _ _).bind fun _ => (alike_executeAll options _ _ _).bind fun ⟨v, scope⟩ => ?_
  rw [executeAll_moved, executeAll_eq _ v .unit]
  simp only [run_eq ht, bind_assoc]
  exact ((alike_executeAll options _ _ _).bind fun _ => .pure _).note_between _

end Alike

/-- A name that the first script binds is there for the second. -/
theorem run_join_binding :
    ((standard {}).run ("let a = 1" ++ joint ++ "a + 2") .empty ⟨⟨[], 0, false, none⟩, []⟩).1 =
      .ok (.int 3, ⟨[⟨"a", .int 1⟩], [], 0⟩) := by
  let token (kind : TokenKind) (text : Text) (offset : Nat) : Token :=
    ⟨kind, text, ⟨1, offset + 1⟩, offset⟩
  have hscan : Token.scan "let a = 1" = .ok [token .letWord "let" 0, token .name "a" 4,
      token .assign "=" 6, token .int "1" 8] := eq_ok_of_toOption (by decide +kernel)
  have hs : (standard {}).parse "let a = 1" = .ok [.binding "a" (.integer "1")] :=
    (parse_eq_map _ hscan rfl).trans rfl
  have hscan' : Token.scan "a + 2" = .ok [token .name "a" 0, token .plus "+" 2,
      token .int "2" 4] := eq_ok_of_toOption (by decide +kernel)
  have ht : (standard {}).parse "a + 2" =
      .ok [.expression (.add (.var "a") (.integer "2"))] := (parse_eq_map _ hscan' rfl).trans rfl
  rw [((run_join hs ht).2 .empty ⟨⟨[], 0, false, none⟩, []⟩ _ rfl).1, run_eq hs]
  simp only [run_eq ht]
  rfl

end Engine

end TypedMemory
