import TypedMemory.Codec.Read
import TypedMemory.Proofs.Codec.Stores

/-!
# What reading and writing touch

Reading touches the slots of the layout and no other byte, also where it meets pointers,
which it does not follow: two memories that give the same to every read of a slot are read
alike (`TypedMemory.Codec.read_congr`).

Writing follows pointers, so only without them does it keep to the slots of the layout
(`TypedMemory.Codec.write_keepsTo`). It leaves all other bytes, and how it ends hangs on
nothing but how the memory answers writes to the slots; what is in the memory it does not
look at. Such a write is made of the stores of its slots alone, so this and whatever else is
to be shown of it is shown of one store and of two updates in sequence
(`TypedMemory.Codec.Composes.write`).

A slot of no bytes is not touched, so nothing is asked of it.
-/

namespace TypedMemory

namespace Memory

/-- A read of the slot gives the same in both memories. -/
def ReadsAlike (m m' : Memory) (s : Slot) : Prop :=
  m'.readBytes s.address s.length = m.readBytes s.address s.length

/-- A write to the slot is allowed in both memories, or refused in the same way. -/
def WritesAlike (m m' : Memory) (s : Slot) : Prop :=
  m'.writeFault? s.address s.length = m.writeFault? s.address s.length

theorem load_of_readsAlike {m m' : Memory} {s : Slot} (h : s.length ≠ 0 → ReadsAlike m m' s) :
    m'.load s.address s.length = m.load s.address s.length := by
  by_cases hs : s.length = 0
  · rw [load, load, if_pos hs, if_pos hs]
  · rw [load, load, if_neg hs, if_neg hs, h hs]

theorem loadNumber_of_readsAlike {m m' : Memory} {order : ByteOrder} {address : Int}
    {width : Nat} (h : width ≠ 0 → ReadsAlike m m' ⟨address, width⟩) :
    m'.loadNumber order address width = m.loadNumber order address width := by
  rw [loadNumber, loadNumber, load_of_readsAlike (s := ⟨address, width⟩) h]

end Memory

namespace Codec

open Memory (ReadsAlike WritesAlike SameFrame)

variable [Host] {options : Options}

/-! ### Reading -/

omit [Host] in
theorem readEach_congr {readAt readAt' : Int → Except Error Value} {stride count : Nat}
    {address : Int}
    (h : ∀ i < count, readAt' (address + i * stride) = readAt (address + i * stride)) :
    readEach readAt' stride count address = readEach readAt stride count address := by
  induction count generalizing address with
  | zero => rfl
  | succ count ih =>
    have hfirst : readAt' address = readAt address := by
      have := h 0 (by omega)
      rwa [Int.natCast_zero, Int.zero_mul, Int.add_zero] at this
    rw [readEach, readEach, hfirst, ih fun i hi => ?_]
    have := h (i + 1) (by omega)
    rwa [Layout.address_succ] at this

theorem readFields_congr {options' : Options} {fields : List (Field Layout)} {m m' : Memory}
    {address : Int} (h : ∀ f ∈ fields, read options' m' f.type (address + f.offset) =
      read options m f.type (address + f.offset)) :
    read.readFields options' m' fields address = read.readFields options m fields address := by
  induction fields with
  | nil => rfl
  | cons f rest ih =>
    rw [List.forall_mem_cons] at h
    rw [read.readFields, read.readFields, h.1, ih h.2]

/-- **Reading touches the slots of the layout alone.** -/
theorem read_congr {l : Layout} {m m' : Memory} {address : Int}
    (h : ∀ s ∈ l.slots address, s.length ≠ 0 → ReadsAlike m m' s) :
    read options m' l address = read options m l address := by
  induction l generalizing address with
  | integer kind => rw [read, read, Memory.loadNumber_of_readsAlike (h _ List.mem_cons_self)]
  | float kind => rw [read, read, Memory.loadNumber_of_readsAlike (h _ List.mem_cons_self)]
  | rawAddress width => rw [read, read, Memory.loadNumber_of_readsAlike (h _ List.mem_cons_self)]
  | pointer width inner => rw [read, read, Memory.loadNumber_of_readsAlike (h _ List.mem_cons_self)]
  | text length => rw [read, read, Memory.load_of_readsAlike (h _ List.mem_cons_self)]
  | wideText length => rw [read, read, Memory.load_of_readsAlike (h _ List.mem_cons_self)]
  | struct fields ih =>
    have hfields : read.readFields options m' fields address =
        read.readFields options m fields address := by
      refine readFields_congr fun f hf => ?_
      exact ih f hf fun s hs => h s (Layout.mem_fieldSlots.mpr ⟨f, hf, hs⟩)
    rw [read, read, hfields]
  | collection element count ih =>
    have hitems : readEach (read options m' element) element.size count address =
        readEach (read options m element) element.size count address := by
      refine readEach_congr fun i hi => ?_
      exact ih fun s hs => h s (Layout.mem_slotsOfEach.mpr ⟨i, hi, hs⟩)
    rw [read, read]
    cases hsize : element.size? with
    | error e => rfl
    | ok stride =>
      obtain rfl := Layout.size_eq_of_size? hsize
      simp only [bind, Except.bind, hitems]
  | foreign v => rfl

/-! ### Writing -/

/-- **A property of updates and their slots composes**: all that has it to be shown of is a
store, a result that touches nothing, and one update after another. -/
structure Composes (P : List Slot → Update Unit → Prop) : Prop where
  lift : ∀ (ss : List Slot) (r : Except Error Unit), P ss (Update.lift r)
  perform : ∀ s : Store, P [s.slot] s.perform
  bind : ∀ {ss ts : List Slot} {x y : Update Unit}, P ss x → P ts y →
    P (ss ++ ts) (x >>= fun _ => y)

namespace Composes

variable {P : List Slot → Update Unit → Prop}

/-- Fields one after another have the property with the slots of all of them. -/
theorem fields (hP : Composes P) {fields : List (Field Layout)} {entries : List (Entry Value)}
    (present : ∀ f ∈ fields, ∃ v, Value.lookup? entries f.name = some v)
    (each : ∀ f ∈ fields, ∀ v, Value.lookup? entries f.name = some v → ∀ address,
      P (f.type.slots address) (store options f.type address v)) (address : Int) :
    P (Layout.slots.fieldSlots fields address)
      (store.storeFields options fields address entries) := by
  induction fields with
  | nil => exact hP.lift [] (.ok ())
  | cons f rest ih =>
    rw [List.forall_mem_cons] at present each
    obtain ⟨v, hv⟩ := present.1
    rw [store.storeFields, hv, Layout.slots.fieldSlots]
    exact hP.bind (each.1 v hv _) (ih present.2 each.2)

/-- Items one after another have the property with the slots of all of them. -/
theorem each (hP : Composes P) {slotsAt : Int → List Slot} {storeAt : Int → Value → Update Unit}
    {items : List Value} (h : ∀ v ∈ items, ∀ address, P (slotsAt address) (storeAt address v))
    (stride : Nat) (address : Int) :
    P (Layout.slotsOfEach slotsAt stride items.length address)
      (storeEach storeAt stride items address) := by
  induction items generalizing address with
  | nil => exact hP.lift [] (.ok ())
  | cons v rest ih =>
    rw [List.forall_mem_cons] at h
    rw [storeEach, List.length_cons, Layout.slotsOfEach]
    exact hP.bind (h.1 _) (ih h.2 _)

/-- Without pointers, writing what fits is made of the stores of the slots alone. -/
theorem store (hP : Composes P) {l : Layout} {v : Value} (h : Fits options l v)
    (hp : l.isPointerFree = true) (address : Int) :
    P (l.slots address) (Codec.store options l address v) := by
  induction h generalizing address with
  | @leaf l v bytes h =>
    rw [slots_of_leafBytes? h, store_leaf h]
    exact hP.perform ⟨address, bytes⟩
  | pointer => simp at hp
  | struct present _ ih =>
    rw [Layout.isPointerFree_struct] at hp
    rw [Codec.store, Layout.slots]
    exact hP.fields present (fun f hf v hv => ih f hf v hv (hp f hf)) address
  | @collection element items _ ih =>
    rw [Layout.isPointerFree_collection] at hp
    rw [Codec.store, Layout.slots]
    cases hsize : element.size? with
    | error e =>
      rw [Update.lift_error_bind]
      exact hP.lift _ _
    | ok stride =>
      obtain rfl := Layout.size_eq_of_size? hsize
      rw [Update.lift_ok_bind]
      exact hP.each (fun v hv => ih v hv hp) element.size address

/-- **Without pointers a write has the property** with the slots of the layout, whatever the
value. -/
theorem write (hP : Composes P) {l : Layout} (hp : l.isPointerFree = true) {at_ : Value}
    {address : Nat} (hat : at_.location = .ok address) (v : Value) :
    P (l.slots address) (Codec.write options l at_ v) := by
  rcases write_cases options l at_ v with ⟨e, hw⟩ | ⟨a, hc, ha, hw⟩
  · rw [hw]
    exact hP.lift _ _
  · cases hat.symm.trans ha
    rw [hw]
    exact hP.store (check_eq_ok_iff.mp hc) hp address

end Composes

/-- **An update keeps to slots**: it leaves all other bytes, and how it ends hangs on nothing
but how writes to these slots are answered. -/
structure KeepsTo (slots : List Slot) (x : Update Unit) : Prop where
  frame : ∀ m, SameFrame m (x m).2
  outside : ∀ m a, (∀ s ∈ slots, ¬s.Contains a) → (x m).2.byteAt? a = m.byteAt? a
  outcome : ∀ m m', (∀ s ∈ slots, s.length ≠ 0 → WritesAlike m m' s) → (x m').1 = (x m).1

namespace KeepsTo

variable {ss ts : List Slot}

omit [Host] in
theorem lift (ss : List Slot) (r : Except Error Unit) : KeepsTo ss (Update.lift r) where
  frame m := .refl m
  outside _ _ _ := rfl
  outcome _ _ _ := rfl

omit [Host] in
theorem bind {x y : Update Unit} (hx : KeepsTo ss x) (hy : KeepsTo ts y) :
    KeepsTo (ss ++ ts) (x >>= fun _ => y) := by
  refine ⟨fun m => ?_, fun m a ha => ?_, fun m m' halike => ?_⟩
  · rw [Effect.bind_apply]
    have hframe := hx.frame m
    rcases hm : x m with ⟨r, m₁⟩
    rw [hm] at hframe
    cases r with
    | error e => exact hframe
    | ok u => exact hframe.trans (hy.frame m₁)
  · rw [Effect.bind_apply]
    have houtside := hx.outside m a fun s hs => ha s (List.mem_append_left ts hs)
    rcases hm : x m with ⟨r, m₁⟩
    rw [hm] at houtside
    cases r with
    | error e => exact houtside
    | ok u =>
      exact (hy.outside m₁ a fun s hs => ha s (List.mem_append_right ss hs)).trans houtside
  · rw [Effect.bind_apply, Effect.bind_apply]
    have houtcome := hx.outcome m m' fun s hs => halike s (List.mem_append_left ts hs)
    have hframe := hx.frame m
    have hframe' := hx.frame m'
    rcases hm : x m with ⟨r, m₁⟩
    rcases hm' : x m' with ⟨r', m₁'⟩
    rw [hm, hm'] at houtcome
    rw [hm] at hframe
    rw [hm'] at hframe'
    obtain rfl : r' = r := houtcome
    cases r' with
    | error e => rfl
    | ok u =>
      -- The first update has changed neither frame.
      refine hy.outcome m₁ m₁' fun s hs hlen => ?_
      rw [WritesAlike, hframe.writeFault?, hframe'.writeFault?]
      exact halike s (List.mem_append_right ss hs) hlen

theorem perform (s : Store) : KeepsTo [s.slot] s.perform := by
  refine ⟨fun m => ?_, fun m a ha => ?_, fun m m' halike => ?_⟩
  · rw [Store.perform_eq]
    cases h : s.fault? m with
    | some e => exact .refl m
    | none => exact Store.sameFrame_replace h
  · rw [Store.perform_eq]
    cases h : s.fault? m with
    | some e => rfl
    | none => exact Store.byteAt?_replace_of_not_mem h (ha _ (List.mem_singleton_self _))
  · have hfault : s.fault? m' = s.fault? m := by
      by_cases hs : s.bytes = []
      · rw [Store.fault?, Store.fault?, if_pos hs, if_pos hs]
      · have hlen : s.slot.length ≠ 0 := by simpa [Store.slot] using hs
        have hwrite := halike _ (List.mem_singleton_self _) hlen
        rw [WritesAlike, Store.slot] at hwrite
        rw [Store.fault?, Store.fault?, hwrite]
    rw [Store.perform_eq, Store.perform_eq, hfault]
    cases s.fault? m <;> rfl

end KeepsTo

/-- **Without pointers a write keeps to the slots of the layout**, whatever the value. -/
theorem write_keepsTo {l : Layout} (hp : l.isPointerFree = true) {at_ : Value} {address : Nat}
    (hat : at_.location = .ok address) (v : Value) :
    KeepsTo (l.slots address) (write options l at_ v) :=
  Composes.write ⟨KeepsTo.lift, KeepsTo.perform, KeepsTo.bind⟩ hp hat v

end Codec

end TypedMemory
