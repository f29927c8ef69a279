import TypedMemory.Proofs.Effect
import TypedMemory.Proofs.Script.Functions
import TypedMemory.Script.Eval

/-!
# Layouts that expressions give

A scope in which a condition on parts holds of every value is all that an expression needs
for its own value to be so: names give what the scope has, or a layout of fixed name, and
what is read from memory holds no layouts but those that the reading layout has under its
pointers. What is in memory does not matter, and neither does what was done to it before
(`TypedMemory.Expr.gives_eval`).
-/

namespace TypedMemory

open Effect

variable {p : Layout → Bool}

/-! ### Actions -/

namespace Run

variable {α : Type} {P : α → Prop}

theorem gives_lift {r : Except Error α} (h : ∀ a, r = .ok a → P a) : Gives P (Run.lift r) := by
  intro m a m' hm
  cases hm
  exact h a rfl

theorem gives_inspect {notes : Memory → List Log.Event} {f : Memory → Except Error α}
    (h : ∀ m a, f m = .ok a → P a) : Gives P (Run.inspect notes f) := by
  intro m a m' hm
  have hf : f m.memory = .ok a := congrArg Prod.fst hm
  exact h m.memory a hf

theorem gives_atRule {rule : Text} {x : Run α} (hx : Gives P x) : Gives P (Run.atRule rule x) := by
  intro m a m' hm
  rw [Run.atRule] at hm
  split at hm
  · cases hm
  · exact hx m a m' hm

/-- Nothing need be known of what comes first if it does not matter. -/
theorem gives_after {β : Type} {x : Run β} {f : β → Run α} (h : ∀ b, Gives P (f b)) :
    Gives P (x >>= f) :=
  Gives.bind (P := fun _ => True) (fun _ _ _ _ => trivial) fun b _ => h b

end Run

/-! ### Scopes -/

/-- A condition holds of all parts of the values of a scope. -/
def Scope.EveryPart (p : Layout → Bool) (s : Scope) : Prop :=
  ∀ e ∈ s.bindings, e.value.everyPart p = true

theorem Scope.EveryPart.bind (hp : Layout.ConcernsStructs p) {s : Scope} (hs : s.EveryPart p)
    {v : Value} (hv : v.everyPart p = true) (name : Text) : (s.bind name v).EveryPart p := by
  intro e he
  rcases Value.mem_bind he with he | rfl
  · exact hs e he
  · exact Value.everyPart_tagged hp.tagged v s.nextTag hv

theorem Scope.EveryPart.withVariable (hp : Layout.ConcernsStructs p) {s s' : Scope}
    (hs : s.EveryPart p) {v : Value} (hv : v.everyPart p = true) {name : Text}
    (h : s.withVariable name v = .ok s') : s'.EveryPart p := by
  rw [Scope.withVariable] at h
  split at h
  · cases h
  · cases h
    exact hs.bind hp hv name

theorem Scope.EveryPart.withConstant (hp : Layout.ConcernsStructs p) {s : Scope}
    (hs : s.EveryPart p) {v : Value} (hv : v.everyPart p = true) (name : Text) :
    (s.withConstant name v).EveryPart p :=
  hs.bind hp hv name

/-! ### Reading -/

namespace Codec

open Value (EveryResult)

variable [Host] {options : Options} {m : Memory}

theorem everyPart_of_readFields {fields : List (Field Layout)} {address : Int}
    {entries : List (Entry Value)}
    (each : ∀ f ∈ fields, ∀ address, EveryResult p (read options m f.type address))
    (h : read.readFields options m fields address = .ok entries) :
    ∀ e ∈ entries, e.value.everyPart p = true := by
  induction fields generalizing entries with
  | nil =>
    cases h
    exact nofun
  | cons f rest ih =>
    rw [List.forall_mem_cons] at each
    obtain ⟨v, hv, h⟩ := exists_of_bind_eq_ok h
    obtain ⟨more, hmore, h⟩ := exists_of_bind_eq_ok h
    cases h
    exact List.forall_mem_cons.mpr ⟨each.1 _ v hv, ih each.2 hmore⟩

omit [Host] in
theorem everyPart_of_readEach {readAt : Int → Except Error Value} {stride count : Nat}
    {address : Int} {items : List Value} (each : ∀ address, EveryResult p (readAt address))
    (h : readEach readAt stride count address = .ok items) :
    ∀ v ∈ items, v.everyPart p = true := by
  induction count generalizing address items with
  | zero =>
    cases h
    exact nofun
  | succ count ih =>
    obtain ⟨v, hv, h⟩ := exists_of_bind_eq_ok h
    obtain ⟨more, hmore, h⟩ := exists_of_bind_eq_ok h
    cases h
    exact List.forall_mem_cons.mpr ⟨each _ v hv, ih hmore⟩

/-- **What is read** holds no layouts but those under the pointers of the layout. -/
theorem everyResult_read {l : Layout} (h : l.everyPart p = true) (address : Int) :
    EveryResult p (read options m l address) := by
  induction l generalizing address with
  | integer kind => exact .bind fun n _ => .ok rfl
  | float kind => exact .bind fun n _ => .ok rfl
  | rawAddress width => exact .bind fun n _ => .ok rfl
  | pointer width inner ih =>
    exact .bind fun n _ => .ok (Value.everyPart_pointer.mpr (Layout.everyPart_pointer.mp h).2)
  | text length => exact .bind fun data _ => .bind fun t _ => .ok rfl
  | wideText length => exact .bind fun data _ => .bind fun t _ => .ok rfl
  | struct fields ih =>
    have hfields := (Layout.everyPart_struct.mp h).2
    refine .bind fun entries hentries => .ok (Value.everyPart_ofEntries ?_)
    exact everyPart_of_readFields (fun f hf => ih f hf (hfields f hf)) hentries
  | collection element count ih =>
    have helement := (Layout.everyPart_collection.mp h).2
    refine .bind fun _ _ => .bind fun stride _ => .bind fun items hitems => .ok ?_
    exact Value.everyPart_array.mpr (everyPart_of_readEach (ih helement) hitems)
  | foreign v => exact .error _

end Codec

/-! ### Methods -/

namespace Expr

variable [Host] {options : Options}

/-- A script writes as the codec does. -/
theorem writeMemory_outcome (l : Layout) (location : Nat) (v : Value) (m : Machine) :
    (writeMemory options l location v m).1 =
        (Codec.write options l (.address location) v m.memory).1.map (fun _ => Value.unit) ∧
      (writeMemory options l location v m).2.memory =
        (Codec.write options l (.address location) v m.memory).2 := by
  rw [writeMemory, bind_apply]
  rcases hw : Codec.write options l (.address location) v m.memory with ⟨r, memory⟩
  simp only [Run.update, hw]
  cases r <;> exact ⟨rfl, rfl⟩

theorem gives_readMethod {arguments : List Value}
    (h : ∀ v ∈ arguments, v.everyPart p = true) :
    Gives (·.everyPart p = true) (readMethod options arguments) := by
  have hread : ∀ {l : Layout} (location : Nat), l.everyPart p = true →
      Gives (·.everyPart p = true) (readMemory options l location) := fun location hl =>
    Run.gives_inspect fun m v hv => Codec.everyResult_read hl location v hv
  rw [readMethod.eq_def]
  split
  · exact hread _ (Value.everyPart_pointer.mp (h _ List.mem_cons_self))
  · exact Run.gives_after fun location => hread location (h _ List.mem_cons_self)
  · exact Run.gives_lift (Value.EveryResult.refuse _)

theorem gives_writeMethod (arguments : List Value) :
    Gives (·.everyPart p = true) (writeMethod options arguments) := by
  have hwrite : ∀ l location v,
      Gives (·.everyPart p = true) (writeMemory options l location v) := fun l location v =>
    Run.gives_after fun _ => gives_pure rfl
  rw [writeMethod.eq_def]
  split
  · exact hwrite _ _ _
  · exact Run.gives_after fun location => hwrite _ _ _
  · exact Run.gives_lift (Value.EveryResult.refuse _)

theorem gives_callMethod (target : Value) (name : Text) {arguments : List Value}
    (h : ∀ v ∈ arguments, v.everyPart p = true) :
    Gives (·.everyPart p = true) (callMethod options target name arguments) := by
  rw [callMethod.eq_def]
  split
  · split
    · exact gives_readMethod h
    · split
      · exact gives_writeMethod arguments
      · exact Run.gives_lift (Value.EveryResult.refuse _)
  · exact Run.gives_lift (Value.EveryResult.refuse _)

/-! ### Evaluation -/

omit [Host] in
theorem everyPart_primitive (hp : Layout.ConcernsStructs p) {name : Text} {l : Layout}
    (h : Layout.primitive? name = some l) : l.everyPart p = true := by
  have hmem : l ∈ Layout.primitives := List.mem_of_find?_eq_some h
  simp only [Layout.primitives, IntegerKind.all, List.map_cons, List.map_nil, List.cons_append,
    List.nil_append, List.mem_cons, List.not_mem_nil, or_false] at hmem
  rcases hmem with rfl | rfl | rfl | rfl | rfl | rfl | rfl | rfl | rfl | rfl <;>
    exact hp.other _ rfl rfl

omit [Host] in
theorem everyResult_variableValue (hp : Layout.ConcernsStructs p) {s : Scope}
    (hs : s.EveryPart p) (name : Text) : Value.EveryResult p (variableValue s name) := by
  rw [variableValue]
  split
  case h_1 v hv => exact .ok (Value.everyPart_of_lookup? hs hv)
  case h_2 =>
    split
    case h_1 l hl => exact .ok (Value.everyPart_type.mpr (everyPart_primitive hp hl))
    case h_2 => exact .refuse _

omit [Host] in
theorem everyResult_integerValue (digits : Text) :
    Value.EveryResult p (integerValue digits) := by
  rw [integerValue]
  split
  · exact .ok rfl
  · exact .error _

theorem everyResult_stringValue (literal : Text) :
    Value.EveryResult p (stringValue literal) := by
  rw [stringValue]
  split
  · exact .ok rfl
  all_goals exact .error _

mutual

/-- **What an expression gives** holds no layouts but such as are in the scope already. -/
theorem gives_eval (hp : Layout.ConcernsStructs p) {s : Scope} (hs : s.EveryPart p) (e : Expr) :
    Gives (·.everyPart p = true) (e.eval options s) := by
  match e with
  | .var name => exact Run.gives_atRule (Run.gives_lift (everyResult_variableValue hp hs name))
  | .integer digits => exact Run.gives_atRule (Run.gives_lift (everyResult_integerValue digits))
  | .hexNumber _ | .decimal _ | .bool _ => exact gives_pure rfl
  | .string literal => exact Run.gives_atRule (Run.gives_lift (everyResult_stringValue literal))
  | .record entries =>
    exact (gives_evalEntries hp hs entries).bind fun entries hentries =>
      gives_pure (Value.everyPart_ofEntries hentries)
  | .array items =>
    exact (gives_evalItems hp hs items).bind fun items hitems =>
      gives_pure (Value.everyPart_array.mpr hitems)
  | .call name arguments =>
    exact (gives_evalItems hp hs arguments).bind fun values hvalues =>
      Run.gives_atRule (Run.gives_lift (Value.everyResult_call hp name hvalues))
  | .member target name =>
    exact (gives_eval hp hs target).bind fun v hv =>
      Run.gives_atRule (Run.gives_lift (Value.everyResult_member hv name))
  | .methodCall target name arguments =>
    exact Run.gives_after fun v => (gives_evalItems hp hs arguments).bind fun values hvalues =>
      Run.gives_atRule (gives_callMethod v name hvalues)
  | .index target key =>
    exact (gives_eval hp hs target).bind fun v hv => Run.gives_after fun k =>
      Run.gives_atRule (Run.gives_lift (Value.everyResult_part hv k))
  | .neg operand =>
    exact Run.gives_after fun v =>
      Run.gives_atRule (Run.gives_lift (Value.everyResult_negate v))
  | .add left right =>
    exact (gives_eval hp hs left).bind fun v hv => (gives_eval hp hs right).bind fun w hw =>
      Run.gives_atRule (Run.gives_lift (Value.everyResult_add hv hw))
  | .sub left right =>
    exact Run.gives_after fun v => Run.gives_after fun w =>
      Run.gives_atRule (Run.gives_lift (Value.everyResult_sub v w))
  | .eq left right => exact Run.gives_after fun v => Run.gives_after fun w => gives_pure rfl
  | .ne left right => exact Run.gives_after fun v => Run.gives_after fun w => gives_pure rfl

theorem gives_evalItems (hp : Layout.ConcernsStructs p) {s : Scope} (hs : s.EveryPart p)
    (items : List Expr) :
    Gives (∀ v ∈ ·, v.everyPart p = true) (eval.evalItems options s items) := by
  match items with
  | [] => exact gives_pure nofun
  | e :: rest =>
    exact (gives_eval hp hs e).bind fun v hv => (gives_evalItems hp hs rest).bind fun vs hvs =>
      gives_pure (List.forall_mem_cons.mpr ⟨hv, hvs⟩)

theorem gives_evalEntries (hp : Layout.ConcernsStructs p) {s : Scope} (hs : s.EveryPart p)
    (entries : List (Entry Expr)) :
    Gives (∀ e ∈ ·, e.value.everyPart p = true) (eval.evalEntries options s entries) := by
  match entries with
  | [] => exact gives_pure nofun
  | ⟨name, e⟩ :: rest =>
    exact (gives_eval hp hs e).bind fun v hv => (gives_evalEntries hp hs rest).bind fun vs hvs =>
      gives_pure (List.forall_mem_cons.mpr ⟨hv, hvs⟩)

end

end Expr

end TypedMemory
