import Mathlib.Logic.Relation
import TypedMemory.Proofs.Codec.Stores

/-!
# Histories of writes

Memory is changed in one way: by bytes that it lets itself be written
(`TypedMemory.Memory.Written`). One such write leaves the frame, and a memory that is read-only
takes none. So both hold of a **history** of writes, one behind the other, from a memory to
another one (`TypedMemory.Memory.History`).

To write a value is such a history, whatever the layout and the value, and also where it fails
(`TypedMemory.Codec.moves_write`): a store is a write, or nothing at all, and following a pointer
only looks.
-/

namespace TypedMemory

open Effect

/-! ### One write and many -/

namespace Memory

variable {m m' : Memory}

/-- The second memory is the first one with some bytes written. -/
def Written (m m' : Memory) : Prop :=
  ∃ address data, m.writeBytes address data = .ok m'

/-- **A history of writes**, one behind the other. -/
def History : Memory → Memory → Prop := Relation.ReflTransGen Written

instance : IsPreorder Memory History :=
  inferInstanceAs (IsPreorder Memory (Relation.ReflTransGen Written))

theorem Written.history (h : Written m m') : History m m' := .single h

theorem written_of_writeFault? {address : Int} {data : Bytes}
    (h : m.writeFault? address data.length = none) : Written m (m.replace address data) :=
  ⟨address, data, by rw [writeBytes, h]⟩

theorem Written.exists_of (h : Written m m') : ∃ address data,
    m.writeFault? address (data : Bytes).length = none ∧ m' = m.replace address data := by
  obtain ⟨address, data, hwrite⟩ := h
  rw [writeBytes] at hwrite
  split at hwrite
  · cases hwrite
  case h_2 hnone => exact ⟨address, data, hnone, (Except.ok.inj hwrite).symm⟩

/-- **A write** leaves the frame. -/
theorem Written.sameFrame (h : Written m m') : SameFrame m m' := by
  obtain ⟨address, data, hnone, rfl⟩ := h.exists_of
  exact sameFrame_replace (covers_of_writeFault? hnone)

theorem Written.readOnly (h : Written m m') : m.readOnly = false := by
  obtain ⟨address, data, hnone, -⟩ := h.exists_of
  exact readOnly_of_writeFault? hnone

/-- **A history of writes** leaves the frame: by induction on its length. -/
theorem History.sameFrame (h : History m m') : SameFrame m m' := by
  induction h with
  | refl => exact .refl m
  | tail _ hlast ih => exact ih.trans hlast.sameFrame

/-- In memory that is read-only a history has no first write. -/
theorem History.eq_of_readOnly (h : History m m') (hr : m.readOnly = true) : m' = m := by
  rcases Relation.ReflTransGen.cases_head h with rfl | ⟨m₁, hfirst, -⟩
  · rfl
  · cases hr.symm.trans hfirst.readOnly

end Memory

/-! ### Writing a value -/

namespace Codec

open Memory (History)

variable [Host] {options : Options}

omit [Host] in
theorem moves_lift {α : Type} (r : Except Error α) : Moves History (Update.lift r) :=
  moves_of_still fun _ => rfl

/-- A store is one write, if it has any bytes and does not fail. -/
theorem Store.moves_perform (s : Store) : Moves History s.perform := by
  intro m
  rw [perform_eq]
  cases hfault : s.fault? m with
  | some e => exact refl m
  | none =>
    by_cases hs : s.bytes = []
    · simpa only [replace_eq_self hs] using refl m
    · exact (Memory.written_of_writeFault? (writeFault?_eq_none hs hfault)).history

theorem moves_storeFields {fields : List (Field Layout)} {entries : List (Entry Value)}
    (each : ∀ f ∈ fields, ∀ v, Value.lookup? entries f.name = some v →
      ∀ address, Moves History (store options f.type address v)) (address : Int) :
    Moves History (store.storeFields options fields address entries) := by
  induction fields with
  | nil => exact moves_pure
  | cons f rest ih =>
    rw [List.forall_mem_cons] at each
    rw [store.storeFields]
    cases hv : Value.lookup? entries f.name with
    | none => exact moves_lift _
    | some v => exact (each.1 v hv _).bind fun _ => ih each.2

omit [Host] in
theorem moves_storeEach {storeAt : Int → Value → Update Unit} {items : List Value}
    (each : ∀ v ∈ items, ∀ address, Moves History (storeAt address v)) (stride : Nat)
    (address : Int) : Moves History (storeEach storeAt stride items address) := by
  induction items generalizing address with
  | nil => exact moves_pure
  | cons v rest ih =>
    rw [List.forall_mem_cons] at each
    exact (each.1 _).bind fun _ => ih each.2 _

/-- Storing what fits is a history of writes. -/
theorem Fits.moves_store {l : Layout} {v : Value} (h : Fits options l v) (address : Int) :
    Moves History (store options l address v) := by
  induction h generalizing address with
  | leaf h =>
    rw [store_leaf h]
    exact Store.moves_perform _
  | pointer _ ih => exact (moves_of_still fun _ => rfl).bind fun target => ih target
  | struct _ _ ih => exact moves_storeFields ih address
  | collection _ ih => exact (moves_lift _).bind fun stride => moves_storeEach ih stride address

/-- **Writing a value is a history of writes**, also where it fails. -/
theorem moves_write (l : Layout) (at_ v : Value) : Moves History (write options l at_ v) := by
  rcases write_cases options l at_ v with ⟨e, hw⟩ | ⟨address, hcheck, -, hw⟩
  · rw [hw]
    exact moves_lift _
  · rw [hw]
    exact (check_eq_ok_iff.mp hcheck).moves_store address

end Codec

end TypedMemory
