import TypedMemory.Codec.Read
import TypedMemory.Proofs.Codec.Validation

/-!
# Nothing but parsing fails as parsing does

A parse error tells that a script is refused, and nothing else may be told so. Here is what
evaluation does to values and to memory: showing a value, reading and writing. Each of them has a
good many failures of its own, and none of these is a parse error. There is no more to it than to
go through them, one lemma for each function, and by the recursion over layouts where there is one
(`TypedMemory.Codec.noParse_read`, `TypedMemory.Codec.neverParses_write`).
-/

namespace TypedMemory

open Effect

/-- The failure of a script to parse. -/
def Error.isParse : Error → Bool
  | .parse _ _ => true
  | _ => false

theorem Error.isParse_raised {e : Error} (h : e.isParse = false) : e.raised.isParse = false := by
  rw [raised]
  split
  · exact h
  · rfl

/-! ### Results -/

/-- The result, if it is a failure, is not one of parsing. -/
def NoParse {α : Type} (r : Except Error α) : Prop := ∀ e, r = .error e → e.isParse = false

namespace NoParse

variable {α β : Type}

theorem ok (a : α) : NoParse (.ok a) := nofun

theorem error {e : Error} (h : e.isParse = false) : NoParse (.error e : Except Error α) := by
  rintro _ ⟨⟩
  exact h

theorem fail {e : Error} (h : e.isParse = false) : NoParse (Error.fail e : Except Error α) :=
  error (Error.isParse_raised h)

theorem bind {r : Except Error α} {f : α → Except Error β} (hr : NoParse r)
    (hf : ∀ a, NoParse (f a)) : NoParse (r >>= f) := by
  intro e h
  rcases or_of_bind_eq_error h with h | ⟨a, -, h⟩
  · exact hr e h
  · exact hf a e h

theorem map {r : Except Error α} {f : α → β} (hr : NoParse r) : NoParse (r.map f) := by
  cases r with
  | error e => exact error (hr e rfl)
  | ok a => exact ok (f a)

theorem forM {f : α → Except Error PUnit} (h : ∀ a, NoParse (f a)) (list : List α) :
    NoParse (list.forM f) := by
  induction list with
  | nil => exact ok _
  | cons a rest ih => exact (h a).bind fun _ => ih

theorem spellable (n : Int) : NoParse (spellable n) := by
  intro e he
  obtain ⟨-, rfl⟩ := spellable_eq_error_iff.mp he
  rfl

end NoParse

/-! ### Showing -/

/-- What keeps something from being shown, if anything does, is no failure of parsing. -/
def NoParseFault (fault : Option Error) : Prop := ∀ e, fault = some e → e.isParse = false

namespace NoParseFault

theorem none : NoParseFault none := nofun

theorem or {fault fault' : Option Error} (h : NoParseFault fault) (h' : NoParseFault fault') :
    NoParseFault (fault.or fault') := by
  intro e he
  rcases Option.or_eq_some_iff.mp he with he | ⟨-, he⟩
  · exact h e he
  · exact h' e he

theorem numeral (n : Int) : NoParseFault (numeralFault? n) := by
  intro e he
  rw [numeralFault?] at he
  split at he
  · cases he
  · cases he
    rfl

theorem shownUnless {fault : Option Error} (h : NoParseFault fault) (t : Text) :
    NoParse (shownUnless fault t) := by
  cases fault with
  | none => exact .ok t
  | some e => exact .error (h e rfl)

end NoParseFault

variable [Host]

mutual

theorem Layout.noParse_renderFault? (l : Layout) : NoParseFault l.renderFault? := by
  match l with
  | .integer _ | .float _ | .rawAddress _ => exact .none
  | .pointer _ inner => exact Layout.noParse_renderFault? inner
  | .text length => exact .numeral length
  | .wideText length => exact .numeral length
  | .struct fields => exact Layout.noParse_fieldsRenderFault? fields
  | .collection element count => exact (Layout.noParse_renderFault? element).or (.numeral count)
  | .foreign v =>
    rintro e ⟨⟩
    cases hfault : v.spellFault? with
    | none => rfl
    | some e => exact v.noParse_spellFault? e hfault

theorem Layout.noParse_fieldsRenderFault? (fields : List (Field Layout)) :
    NoParseFault (Layout.fieldsRenderFault? fields) := by
  match fields with
  | [] => exact .none
  | ⟨offset, _, type⟩ :: rest =>
    exact ((NoParseFault.numeral offset).or (Layout.noParse_renderFault? type)).or
      (Layout.noParse_fieldsRenderFault? rest)

theorem Layout.noParse_spellFault? (l : Layout) : NoParseFault l.spellFault? := by
  match l with
  | .integer _ | .float _ | .rawAddress _ => exact .none
  | .pointer _ inner => exact Layout.noParse_spellFault? inner
  | .text length => exact .numeral length
  | .wideText length => exact .numeral length
  | .struct fields => exact Layout.noParse_fieldsSpellFault? fields
  | .collection element count => exact (Layout.noParse_spellFault? element).or (.numeral count)
  | .foreign v => exact v.noParse_spellFault?

theorem Layout.noParse_fieldsSpellFault? (fields : List (Field Layout)) :
    NoParseFault (Layout.fieldsSpellFault? fields) := by
  match fields with
  | [] => exact .none
  | ⟨offset, _, type⟩ :: rest =>
    exact ((NoParseFault.numeral offset).or (Layout.noParse_spellFault? type)).or
      (Layout.noParse_fieldsSpellFault? rest)

theorem Value.noParse_spellFault? (v : Value) : NoParseFault v.spellFault? := by
  match v with
  | .int n => exact .numeral n
  | .array items => exact Value.noParse_itemsSpellFault? items
  | .record entries => exact Value.noParse_entriesSpellFault? entries
  | .pointer target _ _ => exact target.noParse_renderFault?
  | .type layout => exact layout.noParse_spellFault?
  | .unit | .bool _ | .float _ _ | .text _ | .address _ | .bytes _ | .memory => exact .none

theorem Value.noParse_itemsSpellFault? (items : List Value) :
    NoParseFault (Value.itemsSpellFault? items) := by
  match items with
  | [] => exact .none
  | v :: rest => exact v.noParse_spellFault?.or (Value.noParse_itemsSpellFault? rest)

theorem Value.noParse_entriesSpellFault? (entries : List (Entry Value)) :
    NoParseFault (Value.entriesSpellFault? entries) := by
  match entries with
  | [] => exact .none
  | ⟨_, v⟩ :: rest => exact v.noParse_spellFault?.or (Value.noParse_entriesSpellFault? rest)

end

theorem Layout.isParse_refusal (v : Value) : (refusal v).isParse = false := by
  rw [refusal]
  cases hfault : v.spellFault? with
  | none => rfl
  | some e => exact v.noParse_spellFault? e hfault

theorem Layout.noParse_size? (l : Layout) : NoParse l.size? := by
  rw [size?]
  split
  · exact .error (isParse_refusal _)
  · exact .ok _

theorem Value.noParse_shown (v : Value) : NoParse v.shown := by
  rw [shown.eq_def]
  split
  · exact .ok _
  · exact .ok _
  · exact v.noParse_spellFault?.shownUnless _

theorem Value.noParse_toText (v : Value) : NoParse v.toText := by
  rw [toText.eq_def]
  split
  · exact (Layout.noParse_renderFault? _).shownUnless _
  · exact .ok _
  · exact noParse_shown v

/-! ### Reading and writing -/

omit [Host] in
theorem Memory.isParse_atAddress (address : Int) {e : Error} (h : e.isParse = false) :
    (Fault.atAddress address e).isParse = false := by
  rw [Fault.atAddress.eq_def]
  split
  · rfl
  · exact h

omit [Host] in
theorem Memory.noParse_load (m : Memory) (address : Int) (count : Nat) :
    NoParse (m.load address count) := by
  have hread : NoParse (m.readBytes address count) := by
    rw [readBytes]
    split
    · exact .error rfl
    · split
      · exact .fail rfl
      · exact .ok _
  rw [load]
  split
  · exact .ok _
  · split
    · next e he => exact .error (isParse_atAddress address (hread e he))
    · split
      · exact .ok _
      · exact .fail rfl

omit [Host] in
theorem Memory.noParse_store (m : Memory) (address : Int) (count : Nat) (data : Bytes) :
    NoParse (m.store address count data) := by
  have hfault : NoParseFault (m.writeFault? address count) := by
    intro e he
    rw [writeFault?] at he
    split at he
    · cases he
      rfl
    · split at he
      · cases he
        rfl
      · split at he
        · cases he
          exact Error.isParse_raised rfl
        · cases he
  rw [store]
  split
  · exact .ok _
  · split
    · next e he => exact .error (isParse_atAddress address (hfault e he))
    · exact .ok _

theorem noParse_decodeText (encoding : Option Text) (address : Int) (data : Bytes) :
    NoParse (decodeText encoding address data) := by
  rw [decodeText.eq_def]
  repeat' split
  all_goals first | exact .ok _ | exact .error rfl

theorem noParse_encodeText (encoding : Option Text) (t : Text) :
    NoParse (encodeText encoding t) := by
  rw [encodeText.eq_def]
  repeat' split
  all_goals first | exact .ok _ | exact .error rfl

namespace Codec

variable {options : Options} {m : Memory}

theorem noParse_readFields {fields : List (Field Layout)} {address : Int}
    (each : ∀ f ∈ fields, ∀ address, NoParse (read options m f.type address)) :
    NoParse (read.readFields options m fields address) := by
  induction fields with
  | nil => exact .ok _
  | cons f rest ih =>
    rw [List.forall_mem_cons] at each
    exact (each.1 _).bind fun v => (ih each.2).bind fun entries => .ok _

omit [Host] in
theorem noParse_readEach {readAt : Int → Except Error Value}
    (each : ∀ address, NoParse (readAt address)) (stride count : Nat) (address : Int) :
    NoParse (readEach readAt stride count address) := by
  induction count generalizing address with
  | zero => exact .ok _
  | succ count ih => exact (each _).bind fun v => (ih _).bind fun rest => .ok _

theorem noParse_read (l : Layout) (address : Int) : NoParse (read options m l address) := by
  induction l generalizing address with
  | integer kind => exact (m.noParse_load _ _).map.bind fun n => .ok _
  | float kind => exact (m.noParse_load _ _).map.bind fun n => .ok _
  | rawAddress width => exact (m.noParse_load _ _).map.bind fun n => .ok _
  | pointer width inner => exact (m.noParse_load _ _).map.bind fun n => .ok _
  | text length =>
    exact (m.noParse_load _ _).bind fun data => (noParse_decodeText _ _ _).bind fun t => .ok _
  | wideText length =>
    exact (m.noParse_load _ _).bind fun data => (noParse_decodeText _ _ _).bind fun t => .ok _
  | struct fields ih => exact (noParse_readFields ih).bind fun entries => .ok _
  | collection element count ih =>
    exact (NoParse.spellable count).bind fun _ => element.noParse_size?.bind fun stride =>
      (noParse_readEach ih stride count address).bind fun items => .ok _
  | foreign v => exact .error (Layout.isParse_refusal v)

omit [Host] in
theorem noParse_floatBytes (order : ByteOrder) (kind : FloatKind) (x : Binary64) :
    NoParse (floatBytes order kind x) := by
  rw [floatBytes.eq_def]
  repeat' split
  all_goals first | exact .ok _ | exact .fail rfl

omit [Host] in
theorem noParse_integerAsFloatBytes (order : ByteOrder) (kind : FloatKind) (n : Int) :
    NoParse (integerAsFloatBytes order kind n) := by
  rw [integerAsFloatBytes.eq_def]
  repeat' split
  all_goals first | exact .ok _ | exact .fail rfl

theorem noParse_checkText (encoding : Option Text) (slot : Text) (holds : Nat) (t : Text) :
    NoParse (checkText encoding slot holds t) := by
  refine (noParse_encodeText encoding t).bind fun coded => ?_
  split
  · exact .fail rfl
  · exact .ok _

theorem noParse_checkFields {fields : List (Field Layout)} {entries : List (Entry Value)}
    (each : ∀ f ∈ fields, ∀ v, NoParse (check options f.type v)) :
    NoParse (check.checkFields options fields entries) := by
  induction fields with
  | nil => exact .ok _
  | cons f rest ih =>
    rw [List.forall_mem_cons] at each
    rw [check.checkFields]
    split
    · exact .fail rfl
    · exact (each.1 _).bind fun _ => ih each.2

theorem noParse_check (l : Layout) (v : Value) : NoParse (check options l v) := by
  induction l generalizing v with
  | integer kind => cases v <;> first | exact .ok _ | exact .fail rfl
  | float kind =>
    cases v with
    | int n => exact (noParse_integerAsFloatBytes _ _ _).map
    | float x tag => exact (noParse_floatBytes _ _ _).map
    | _ => exact .fail rfl
  | rawAddress width => cases v <;> first | exact .ok _ | exact .fail rfl
  | pointer width inner ih => exact ih v
  | text length =>
    cases v with
    | text t => exact noParse_checkText _ _ _ _
    | _ => exact .fail rfl
  | wideText length =>
    cases v with
    | text t => exact noParse_checkText _ _ _ _
    | _ => exact .fail rfl
  | struct fields ih =>
    cases v with
    | record entries => exact noParse_checkFields ih
    | _ => exact .fail rfl
  | collection element count ih =>
    cases v with
    | array items =>
      rw [check]
      split
      · exact .forM ih items
      · exact .fail rfl
    | _ => exact .fail rfl
  | foreign stray => exact .error (Layout.isParse_refusal stray)

/-- A change of memory that does not fail to parse. -/
abbrev NeverParses {α : Type} (x : Update α) : Prop := FailsOnly (fun e => e.isParse = false) x

omit [Host] in
theorem neverParses_storeSlot (address : Int) (count : Nat) (data : Bytes) :
    NeverParses (storeSlot address count data) := by
  intro m e m' h
  rw [storeSlot, Update.step] at h
  split at h
  · cases h
  · next e' he =>
    cases h
    exact m.noParse_store address count data e he

theorem neverParses_storeText (encoding : Option Text) (address : Int) (holds : Nat) (t : Text) :
    NeverParses (storeText encoding address holds t) := by
  refine (failsOnly_lift (noParse_encodeText encoding t)).bind fun coded => ?_
  split
  · next e he =>
    refine failsOnly_lift (NoParse.error ?_)
    rw [fillingFault?] at he
    split at he
    · cases he
      rfl
    · split at he
      · cases he
        rfl
      · cases he
  · exact neverParses_storeSlot _ _ _

theorem neverParses_store (l : Layout) (address : Int) (v : Value) :
    NeverParses (store options l address v) := by
  have hkind : NeverParses (Update.lift (.error (.failure .badKind)) : Update Unit) :=
    failsOnly_lift (NoParse.error rfl)
  induction l generalizing address v with
  | integer kind =>
    cases v with
    | int n => exact neverParses_storeSlot _ _ _
    | _ => exact hkind
  | float kind =>
    cases v with
    | int n =>
      exact (failsOnly_lift (noParse_integerAsFloatBytes _ _ _)).bind fun data =>
        neverParses_storeSlot _ _ _
    | float x tag =>
      exact (failsOnly_lift (noParse_floatBytes _ _ _)).bind fun data =>
        neverParses_storeSlot _ _ _
    | _ => exact hkind
  | rawAddress width =>
    cases v with
    | int n => exact neverParses_storeSlot _ _ _
    | address n => exact neverParses_storeSlot _ _ _
    | _ => exact hkind
  | pointer width inner ih =>
    have hload : NeverParses (Update.inspect fun m =>
        m.loadNumber options.byteOrder address width.bytes) := by
      intro m e m' h
      exact (m.noParse_load _ _).map e (congrArg Prod.fst h)
    exact hload.bind fun target => ih target v
  | text length =>
    cases v with
    | text t => exact neverParses_storeText _ _ _ _
    | _ => exact hkind
  | wideText length =>
    cases v with
    | text t => exact neverParses_storeText _ _ _ _
    | _ => exact hkind
  | struct fields ih =>
    cases v with
    | record entries =>
      exact failsOnly_storeFields (P := fun e => e.isParse = false) (fun _ _ _ => rfl)
        (fun f hf v _ address => ih f hf address v) address
    | _ => exact hkind
  | collection element count ih =>
    cases v with
    | array items =>
      exact (failsOnly_lift element.noParse_size?).bind fun stride =>
        failsOnly_storeEach (fun v _ address => ih address v) stride address
    | _ => exact hkind
  | foreign stray => exact failsOnly_lift (NoParse.error (Layout.isParse_refusal stray))

theorem neverParses_write (l : Layout) (at_ v : Value) :
    NeverParses (write options l at_ v) := by
  have hlocation : NoParse at_.location := by
    rw [Value.location.eq_def]
    split
    · exact .ok _
    · exact .ok _
    · exact .fail rfl
  exact (failsOnly_lift (noParse_check l v)).bind fun _ =>
    (failsOnly_lift hlocation).bind fun address => neverParses_store l address v

end Codec

end TypedMemory
