import TypedMemory.Proofs.Codec.Stores

/-!
# Nothing but memory refuses a checked value

Checking and writing are two recursions over a layout and a value. This file says that they
agree: once the check has passed, writing can end in no failure but that of an access to
memory, below pointers, in collections and in records with more entries than fields
(`TypedMemory.Codec.write_complete`). So a write that fails in any other way has not changed
a byte, and no value leaves a struct half written.

What is asked of the layout is that it holds nothing but layouts, and no text slot that is
longer than a row of bytes can be: such a slot cannot be filled up with zeros, whatever the
memory.
-/

namespace TypedMemory

/-- The failure of an access to memory. -/
def Error.IsMemoryAccess (e : Error) : Prop :=
  ∃ address cause, e = .memoryAccess address cause

/-! ### Refusals of memory -/

namespace Memory

variable [Host] {m : Memory} {address : Int} {count : Nat} {e : Error}

omit [Host] in
theorem isMemoryAccess_of_atAddress (h : e = .failure .deviceGone ∨ e.IsMemoryAccess) :
    (Fault.atAddress address e).IsMemoryAccess := by
  rcases h with rfl | ⟨a, cause, rfl⟩
  · exact ⟨_, _, rfl⟩
  · exact ⟨_, _, rfl⟩

theorem isMemoryAccess_of_load (hc : count < Host.room) (h : m.load address count = .error e) :
    e.IsMemoryAccess := by
  rw [load] at h
  split at h
  · cases h
  · rw [readBytes] at h
    split at h
    case h_1 _ fault hread =>
      cases h
      refine isMemoryAccess_of_atAddress ?_
      split at hread
      · cases hread
        exact Or.inl rfl
      · split at hread
        · cases hread
          exact Or.inr ⟨_, _, Codec.raised_eq rfl hc⟩
        · cases hread
    case h_2 _ data hread =>
      split at h
      · cases h
      · cases h
        exact ⟨_, _, Codec.raised_eq rfl hc⟩

theorem isMemoryAccess_of_writeFault? (hc : count < Host.room)
    (h : m.writeFault? address count = some e) :
    (Fault.atAddress address e).IsMemoryAccess := by
  refine isMemoryAccess_of_atAddress ?_
  rw [writeFault?] at h
  split at h
  · cases h
    exact Or.inl rfl
  · split at h
    · cases h
      exact Or.inr ⟨_, _, rfl⟩
    · split at h
      · cases h
        exact Or.inr ⟨_, _, Codec.raised_eq rfl hc⟩
      · cases h

end Memory

namespace Codec

open Effect

section Checked

variable [Host] {options : Options}

theorem Store.failsOnly_perform {s : Store} (h : fillingFault? s.bytes.length = none) :
    FailsOnly Error.IsMemoryAccess s.perform := by
  intro m e m' hm
  rw [Store.perform_eq] at hm
  cases hfault : s.fault? m with
  | none =>
    rw [hfault] at hm
    cases hm
  | some fault =>
    rw [hfault] at hm
    cases hm
    rw [Store.fault?, h] at hfault
    split at hfault
    · cases hfault
    · obtain ⟨e', he, rfl⟩ := Option.map_eq_some_iff.mp hfault
      exact Memory.isMemoryAccess_of_writeFault? (lt_room_of_fillingFault? h) he

/-- Following a pointer fails only as memory does. -/
theorem failsOnly_inspect (width : AddressWidth) (address : Int) :
    FailsOnly Error.IsMemoryAccess
      (Update.inspect fun m => m.loadNumber options.byteOrder address width.bytes) := by
  have hwidth : width.bytes < Host.room := by
    have hroom := Host.lt_room
    cases width <;> simp only [AddressWidth.bytes] <;> omega
  intro m e m' hm
  rw [Update.inspect] at hm
  cases hload : m.load address width.bytes with
  | ok data =>
    rw [Memory.loadNumber_of_ok hload] at hm
    cases hm
  | error e' =>
    rw [Memory.loadNumber_of_error hload] at hm
    cases hm
    exact Memory.isMemoryAccess_of_load hwidth hload

/-- There is room for the bytes of every leaf. -/
theorem fillingFault?_leaf {l : Layout} (hl : l.isLeaf = true) (h : l.hasRoomForTexts = true) :
    fillingFault? l.size = none := by
  cases l with
  | integer kind => exact fillingFault?_of_le (by cases kind <;> decide)
  | float kind => exact fillingFault?_of_le (by cases kind <;> decide)
  | rawAddress width => exact fillingFault?_of_le (by cases width <;> decide)
  | text length => simpa [Layout.hasRoomForTexts, Layout.everyPart, Layout.size] using h
  | wideText length => simpa [Layout.hasRoomForTexts, Layout.everyPart, Layout.size] using h
  | _ => cases hl

/-! ### Writing -/

omit [Host] in
theorem failsOnly_lift {α : Type} {P : Error → Prop} {r : Except Error α}
    (h : ∀ e, r = .error e → P e) : FailsOnly P (Update.lift r) := by
  intro m e m' hm
  exact h e (congrArg Prod.fst hm)

theorem failsOnly_storeFields {P : Error → Prop} {fields : List (Field Layout)}
    {entries : List (Entry Value)}
    (missing : ∀ f ∈ fields, Value.lookup? entries f.name = none → P (.failure .badKind))
    (each : ∀ f ∈ fields, ∀ v, Value.lookup? entries f.name = some v →
      ∀ address, FailsOnly P (store options f.type address v)) (address : Int) :
    FailsOnly P (store.storeFields options fields address entries) := by
  induction fields with
  | nil => exact failsOnly_pure
  | cons f rest ih =>
    rw [List.forall_mem_cons] at missing each
    rw [store.storeFields]
    cases hv : Value.lookup? entries f.name with
    | none => exact failsOnly_lift fun e he => Except.error.inj he ▸ missing.1 hv
    | some v => exact (each.1 v hv _).bind fun _ => ih missing.2 each.2

omit [Host] in
theorem failsOnly_storeEach {P : Error → Prop} {storeAt : Int → Value → Update Unit}
    {items : List Value} (each : ∀ v ∈ items, ∀ address, FailsOnly P (storeAt address v))
    (stride : Nat) (address : Int) : FailsOnly P (storeEach storeAt stride items address) := by
  induction items generalizing address with
  | nil => exact failsOnly_pure
  | cons v rest ih =>
    rw [List.forall_mem_cons] at each
    exact (each.1 _).bind fun _ => ih each.2 _

/-- What fits is refused by nothing but memory. -/
theorem Fits.failsOnly_store {l : Layout} {v : Value} (h : Fits options l v)
    (hg : l.isGenuine = true) (ht : l.hasRoomForTexts = true) (address : Int) :
    FailsOnly Error.IsMemoryAccess (store options l address v) := by
  induction h generalizing address with
  | leaf h =>
    rw [store_leaf h]
    refine Store.failsOnly_perform ?_
    rw [length_of_leafBytes? h]
    exact fillingFault?_leaf (isLeaf_of_leafBytes? h) ht
  | @pointer width inner v _ ih =>
    rw [Layout.hasRoomForTexts, Layout.everyPart_pointer] at ht
    exact (failsOnly_inspect width address).bind fun target => ih hg ht.2 target
  | struct present _ ih =>
    rw [Layout.isGenuine, Layout.fieldsGenuine_iff] at hg
    rw [Layout.hasRoomForTexts, Layout.everyPart_struct] at ht
    rw [store]
    refine failsOnly_storeFields (fun f hf hnone => ?_)
      (fun f hf v hv address => ih f hf v hv (hg f hf) (ht.2 f hf) address) address
    obtain ⟨v, hv⟩ := present f hf
    cases hnone.symm.trans hv
  | @collection element items _ ih =>
    rw [Layout.hasRoomForTexts, Layout.everyPart_collection] at ht
    have hsize : element.size? = .ok element.size := Layout.size?_eq_ok hg
    rw [store, hsize, Update.lift_ok_bind]
    exact failsOnly_storeEach (fun v hv => ih v hv hg ht.2) _ _

/-- **Validation before writing is complete.** Once a value has passed the check, writing it
ends well or in the failure of an access to memory; so where a write fails in any other way,
memory is as it was. -/
theorem write_complete {l : Layout} (hg : l.isGenuine = true) (ht : l.hasRoomForTexts = true)
    (v : Value) (m : Memory) :
    (check options l v = .ok () → ∀ address, (store options l address v m).1 = .ok () ∨
      ∃ e, (store options l address v m).1 = .error e ∧ e.IsMemoryAccess) ∧
    ∀ at_ e, (write options l at_ v m).1 = .error e → ¬e.IsMemoryAccess →
      (write options l at_ v m).2 = m := by
  have hstore : check options l v = .ok () → ∀ address,
      FailsOnly Error.IsMemoryAccess (store options l address v) := fun h =>
    (check_eq_ok_iff.mp h).failsOnly_store hg ht
  refine ⟨fun h address => ?_, fun at_ e he hne => ?_⟩
  · rcases hm : store options l address v m with ⟨r, m'⟩
    cases r with
    | ok u => exact Or.inl rfl
    | error e => exact Or.inr ⟨e, rfl, hstore h address m e m' hm⟩
  · rcases write_cases options l at_ v with ⟨e', hw⟩ | ⟨address, hc, -, hw⟩
    · rw [hw]
      rfl
    · rw [hw] at he
      rcases hm : store options l address v m with ⟨r, m'⟩
      rw [hm] at he
      obtain rfl : r = .error e := he
      exact absurd (hstore hc address m e m' hm) hne

end Checked

set_option maxRecDepth 4000 in
/-- A pointer that points out of the memory, behind a text: the text is stored, and the failure
is one of memory. -/
theorem write_complete_dangling :
    let l := Layout.struct
      [⟨0, "name", .text 2⟩, ⟨2, "to", .pointer .narrow (.collection (.float .fp32) 1)⟩]
    let v := Value.record [⟨"to", .array [.int 3]⟩, ⟨"name", .text []⟩, ⟨"more", .unit⟩]
    let m : Memory := { bytes := [7, 7, 9, 9, 9, 9] }
    (store {} l 0 v m).1 = .ok () ∨
      ∃ e, (store {} l 0 v m).1 = .error e ∧ e.IsMemoryAccess := by
  intro l v m
  exact (write_complete (l := l) (by decide) (by decide) v m).1 rfl 0

end Codec

end TypedMemory
