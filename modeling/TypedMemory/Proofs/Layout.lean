import TypedMemory.Codec.Write
import TypedMemory.Proofs.Memory

/-!
# The parts and the slots of a layout

A layout is a tree, and what is asked of it is mostly asked of every **part** of the tree:
that no part is a pointer, that the fields of every struct have names of their own, or lie
one behind the other. All of these are `TypedMemory.Layout.everyPart` of a condition on a
single part; it also goes through the layouts inside of values, since a value can stand in
the place of a layout.

The **slots** of a layout at an address are the runs of bytes that its leaves take up, in the
order in which they are read and written. A pointer is a leaf here: what it points to lies
elsewhere. Where the fields of every struct lie one behind the other, all slots lie between
the address and the size behind it (`TypedMemory.Layout.slots_within`), although the size of
a struct looks at its last field alone.

Whether a layout can be shown is a condition on the parts as well: that scripts have words for each
(`TypedMemory.Layout.renderFault?_eq_none_iff`).
-/

namespace TypedMemory

/-! ### Induction -/

theorem Field.sizeOf_type_lt (f : Field Layout) : sizeOf f.type < sizeOf f := by
  cases f
  simp only [Field.mk.sizeOf_spec]
  omega

namespace Layout

section Induction

variable {P : Layout → Prop} (integer : ∀ kind, P (.integer kind))
  (float : ∀ kind, P (.float kind)) (rawAddress : ∀ width, P (.rawAddress width))
  (pointer : ∀ width inner, P inner → P (.pointer width inner))
  (text : ∀ length, P (.text length)) (wideText : ∀ length, P (.wideText length))
  (struct : ∀ fields, (∀ f ∈ fields, P f.type) → P (.struct fields))
  (collection : ∀ element count, P element → P (.collection element count))
  (foreign : ∀ v, P (.foreign v))

include integer float rawAddress pointer text wideText struct collection foreign

/-- **Induction over layouts**, with one hypothesis for all fields of a struct. What stands
in the place of a layout has no layouts of its own to descend into. -/
@[induction_eliminator]
theorem induct (l : Layout) : P l := by
  match l with
  | .integer kind => exact integer kind
  | .float kind => exact float kind
  | .rawAddress width => exact rawAddress width
  | .pointer width inner => exact pointer width inner (induct inner)
  | .text length => exact text length
  | .wideText length => exact wideText length
  | .struct fields => exact struct fields fun f hf => induct f.type
  | .collection element count => exact collection element count (induct element)
  | .foreign v => exact foreign v
termination_by l
decreasing_by
  · decreasing_tactic
  · have hfield := Field.sizeOf_type_lt f
    have hmem := List.sizeOf_lt_of_mem hf
    rw [Layout.struct.sizeOf_spec]
    omega
  · decreasing_tactic

end Induction

end Layout

/-! ### Every part -/

mutual

/-- Whether a condition holds of the layout and of every layout inside it. -/
def Layout.everyPart (p : Layout → Bool) : Layout → Bool
  | .pointer width inner => p (.pointer width inner) && inner.everyPart p
  | .struct fields => p (.struct fields) && Layout.fieldsEveryPart p fields
  | .collection element count => p (.collection element count) && element.everyPart p
  | .foreign v => p (.foreign v) && v.everyPart p
  | l => p l

/-- The same for the layouts of fields. -/
def Layout.fieldsEveryPart (p : Layout → Bool) : List (Field Layout) → Bool
  | [] => true
  | f :: rest => f.type.everyPart p && Layout.fieldsEveryPart p rest

/-- Whether a condition holds of every layout inside the value. -/
def Value.everyPart (p : Layout → Bool) : Value → Bool
  | .array items => Value.itemsEveryPart p items
  | .record entries => Value.entriesEveryPart p entries
  | .pointer target _ _ => target.everyPart p
  | .type l => l.everyPart p
  | _ => true

/-- The same for the items of an array. -/
def Value.itemsEveryPart (p : Layout → Bool) : List Value → Bool
  | [] => true
  | v :: rest => v.everyPart p && Value.itemsEveryPart p rest

/-- The same for the entries of a record. -/
def Value.entriesEveryPart (p : Layout → Bool) : List (Entry Value) → Bool
  | [] => true
  | e :: rest => e.value.everyPart p && Value.entriesEveryPart p rest

end

section EveryPart

variable {p : Layout → Bool}

theorem Layout.fieldsEveryPart_iff {fields : List (Field Layout)} :
    Layout.fieldsEveryPart p fields = true ↔ ∀ f ∈ fields, f.type.everyPart p = true := by
  induction fields with
  | nil => simp [Layout.fieldsEveryPart]
  | cons f rest ih => simp [Layout.fieldsEveryPart, ih]

theorem Value.itemsEveryPart_iff {items : List Value} :
    Value.itemsEveryPart p items = true ↔ ∀ v ∈ items, v.everyPart p = true := by
  induction items with
  | nil => simp [Value.itemsEveryPart]
  | cons v rest ih => simp [Value.itemsEveryPart, ih]

theorem Value.entriesEveryPart_iff {entries : List (Entry Value)} :
    Value.entriesEveryPart p entries = true ↔ ∀ e ∈ entries, e.value.everyPart p = true := by
  induction entries with
  | nil => simp [Value.entriesEveryPart]
  | cons e rest ih => simp [Value.entriesEveryPart, ih]

@[simp] theorem Layout.everyPart_pointer {width : AddressWidth} {inner : Layout} :
    (Layout.pointer width inner).everyPart p = true ↔
      p (.pointer width inner) = true ∧ inner.everyPart p = true := by
  simp [Layout.everyPart]

@[simp] theorem Layout.everyPart_struct {fields : List (Field Layout)} :
    (Layout.struct fields).everyPart p = true ↔
      p (.struct fields) = true ∧ ∀ f ∈ fields, f.type.everyPart p = true := by
  simp [Layout.everyPart, Layout.fieldsEveryPart_iff]

@[simp] theorem Layout.everyPart_collection {element : Layout} {count : Nat} :
    (Layout.collection element count).everyPart p = true ↔
      p (.collection element count) = true ∧ element.everyPart p = true := by
  simp [Layout.everyPart]

@[simp] theorem Layout.everyPart_foreign {v : Value} :
    (Layout.foreign v).everyPart p = true ↔ p (.foreign v) = true ∧ v.everyPart p = true := by
  simp [Layout.everyPart]

@[simp] theorem Value.everyPart_array {items : List Value} :
    (Value.array items).everyPart p = true ↔ ∀ v ∈ items, v.everyPart p = true := by
  simp [Value.everyPart, Value.itemsEveryPart_iff]

@[simp] theorem Value.everyPart_record {entries : List (Entry Value)} :
    (Value.record entries).everyPart p = true ↔ ∀ e ∈ entries, e.value.everyPart p = true := by
  simp [Value.everyPart, Value.entriesEveryPart_iff]

@[simp] theorem Value.everyPart_pointer {target : Layout} {location : Nat} {tag : Option Nat} :
    (Value.pointer target location tag).everyPart p = true ↔ target.everyPart p = true := by
  simp [Value.everyPart]

@[simp] theorem Value.everyPart_type {l : Layout} :
    (Value.type l).everyPart p = true ↔ l.everyPart p = true := by
  simp [Value.everyPart]

end EveryPart

theorem numeralFault?_eq_none_iff {n : Int} :
    numeralFault? n = none ↔ Numeral.isSpellable n = true := by
  simp [numeralFault?]

namespace Layout

/-! ### Conditions on the parts -/

/-- Has one slot of its own, and nothing else to read or write. -/
def isLeaf : Layout → Bool
  | .pointer _ _ | .struct _ | .collection _ _ | .foreign _ => false
  | _ => true

/-- No part is a pointer. -/
def isPointerFree (l : Layout) : Bool :=
  l.everyPart fun
    | .pointer _ _ => false
    | _ => true

@[simp] theorem isPointerFree_pointer {width : AddressWidth} {inner : Layout} :
    (pointer width inner).isPointerFree = false := by
  simp [isPointerFree, everyPart]

theorem isPointerFree_struct {fields : List (Field Layout)} :
    (struct fields).isPointerFree = true ↔ ∀ f ∈ fields, f.type.isPointerFree = true := by
  simp [isPointerFree]

theorem isPointerFree_collection {element : Layout} {count : Nat} :
    (collection element count).isPointerFree = true ↔ element.isPointerFree = true := by
  simp [isPointerFree]

/-- The fields of every struct have names of their own. -/
def hasDistinctNames (l : Layout) : Bool :=
  l.everyPart fun
    | .struct fields => decide (fields.map Field.name).Nodup
    | _ => true

/-- No text slot is longer than what can be made at once. -/
def hasRoomForTexts [Host] (l : Layout) : Bool :=
  l.everyPart fun
    | .text length => (Codec.fillingFault? length).isNone
    | .wideText length => (Codec.fillingFault? (length * 2)).isNone
    | _ => true

/-- Each field ends before the next one starts. -/
def fieldsSpaced : List (Field Layout) → Bool
  | f :: g :: rest => f.offset + f.type.size ≤ g.offset && fieldsSpaced (g :: rest)
  | _ => true

/-- The condition on a part that its fields, if it is a struct, lie one behind the other. -/
def spaced : Layout → Bool
  | .struct fields => fieldsSpaced fields
  | _ => true

/-- The condition on a part that it is a layout, and nothing that was put in the place of one. -/
def isProper (l : Layout) : Bool := !l.isForeign

/-- **Well laid out**: in every struct each field ends before the next one starts. -/
def isWellLaidOut (l : Layout) : Bool := l.everyPart spaced

/-- The condition on a part that scripts have words for it: the numbers that it has itself are not
too long to be spelled, and it is a layout at all. -/
def isSayable : Layout → Bool
  | .text length | .wideText length => Numeral.isSpellable length
  | .struct fields => fields.all fun f => Numeral.isSpellable f.offset
  | .collection _ count => Numeral.isSpellable count
  | .foreign _ => false
  | _ => true

/-! ### Sizes -/

theorem fieldsGenuine_iff {fields : List (Field Layout)} :
    isGenuine.fieldsGenuine fields = true ↔ ∀ f ∈ fields, f.type.isGenuine = true := by
  induction fields with
  | nil => simp [isGenuine.fieldsGenuine]
  | cons f rest ih => simp [isGenuine.fieldsGenuine, ih]

theorem lastStray?_eq_none {fields : List (Field Layout)}
    (h : ∀ f ∈ fields, f.type.stray? = none) : stray?.lastStray? fields = none := by
  match fields with
  | [] => rfl
  | [f] => exact h f (List.mem_singleton_self f)
  | _ :: f :: rest =>
    have hrest : ∀ g ∈ f :: rest, g.type.stray? = none := fun g hg =>
      h g (List.mem_cons_of_mem _ hg)
    rw [stray?.lastStray?]
    exact lastStray?_eq_none hrest

theorem stray?_eq_none {l : Layout} (h : l.isGenuine = true) : l.stray? = none := by
  induction l with
  | struct fields ih =>
    rw [isGenuine, fieldsGenuine_iff] at h
    exact lastStray?_eq_none fun f hf => ih f hf (h f hf)
  | collection element count ih => exact ih h
  | foreign v => simp [isGenuine] at h
  | _ => rfl

theorem isGenuine_of_everyPart {l : Layout} (h : l.everyPart isProper = true) :
    l.isGenuine = true := by
  induction l with
  | pointer width inner ih => exact ih (everyPart_pointer.mp h).2
  | struct fields ih =>
    rw [isGenuine, fieldsGenuine_iff]
    exact fun f hf => ih f hf ((everyPart_struct.mp h).2 f hf)
  | collection element count ih => exact ih (everyPart_collection.mp h).2
  | foreign v => cases (everyPart_foreign.mp h).1
  | _ => rfl

section Host

variable [Host]

/-- A genuine layout has a size. -/
theorem size?_eq_ok {l : Layout} (h : l.isGenuine = true) : l.size? = .ok l.size := by
  rw [size?, stray?_eq_none h]

theorem size_eq_of_size? {l : Layout} {n : Nat} (h : l.size? = .ok n) : n = l.size := by
  rw [size?] at h
  split at h
  · cases h
  · cases h
    rfl

/-! ### Script form -/

theorem fieldsRenderFault?_eq_none_iff {fields : List (Field Layout)} :
    fieldsRenderFault? fields = none ↔
      ∀ f ∈ fields, Numeral.isSpellable f.offset = true ∧ f.type.renderFault? = none := by
  induction fields with
  | nil => simp [fieldsRenderFault?]
  | cons f rest ih =>
    rw [fieldsRenderFault?, Option.or_eq_none_iff, Option.or_eq_none_iff,
      numeralFault?_eq_none_iff, ih, List.forall_mem_cons]

/-- **A layout can be shown** exactly where scripts have words for every part of it. -/
theorem renderFault?_eq_none_iff {l : Layout} :
    l.renderFault? = none ↔ l.everyPart isSayable = true := by
  induction l with
  | pointer width inner ih => simp [renderFault?, isSayable, ih]
  | text length => exact numeralFault?_eq_none_iff
  | wideText length => exact numeralFault?_eq_none_iff
  | struct fields ih =>
    rw [renderFault?, fieldsRenderFault?_eq_none_iff, everyPart_struct, isSayable, List.all_eq_true]
    exact ⟨fun h => ⟨fun f hf => (h f hf).1, fun f hf => (ih f hf).mp (h f hf).2⟩,
      fun h f hf => ⟨h.1 f hf, (ih f hf).mpr (h.2 f hf)⟩⟩
  | collection element count ih =>
    rw [renderFault?, Option.or_eq_none_iff, numeralFault?_eq_none_iff, ih, everyPart_collection,
      and_comm, isSayable]
  | foreign v => simp [renderFault?, isSayable]
  | _ => simp [renderFault?, everyPart, isSayable]

theorem describe_eq_ok_iff {l : Layout} : (∃ t, l.describe = .ok t) ↔ l.renderFault? = none := by
  rw [describe]
  cases l.renderFault? <;> simp [shownUnless]

/-- What can be shown in script form is made of layouts alone. -/
theorem isGenuine_of_renderFault? {l : Layout} (h : l.renderFault? = none) :
    l.isGenuine = true := by
  induction l with
  | pointer width inner ih => exact ih h
  | struct fields ih =>
    rw [isGenuine, fieldsGenuine_iff]
    exact fun f hf => ih f hf (fieldsRenderFault?_eq_none_iff.mp h f hf).2
  | collection element count ih => exact ih (Option.or_eq_none_iff.mp h).1
  | foreign v => cases h
  | _ => rfl

end Host

/-! ### Spaced fields -/

/-- Where fields lie one behind the other, every one ends before the last one does. -/
theorem end_le_fieldsSize {fields : List (Field Layout)} (h : fieldsSpaced fields = true) :
    ∀ f ∈ fields, f.offset + f.type.size ≤ size.fieldsSize fields := by
  match fields with
  | [] => exact fun f hf => absurd hf List.not_mem_nil
  | [f] =>
    intro g hg
    rw [List.mem_singleton.mp hg]
    exact Nat.le_refl _
  | f :: g :: rest =>
    rw [fieldsSpaced, Bool.and_eq_true, decide_eq_true_eq] at h
    have hrest := end_le_fieldsSize h.2
    intro k hk
    rw [size.fieldsSize]
    rcases List.mem_cons.mp hk with rfl | hk
    · have hg := hrest g List.mem_cons_self
      omega
    · exact hrest k hk

/-! ### Slots -/

/-- The slots of so many elements, each a stride behind the one before. -/
def slotsOfEach (slotsAt : Int → List Slot) (stride : Nat) : Nat → Int → List Slot
  | 0, _ => []
  | count + 1, address => slotsAt address ++ slotsOfEach slotsAt stride count (address + stride)

/-- **The slots of the leaves** of a layout at an address, by offsets and elements. -/
def slots : Layout → Int → List Slot
  | .integer kind, address => [⟨address, kind.width⟩]
  | .float kind, address => [⟨address, kind.width⟩]
  | .rawAddress width, address => [⟨address, width.bytes⟩]
  | .pointer width _, address => [⟨address, width.bytes⟩]
  | .text length, address => [⟨address, length⟩]
  | .wideText length, address => [⟨address, length * 2⟩]
  | .struct fields, address => fieldSlots fields address
  | .collection element count, address => slotsOfEach element.slots element.size count address
  | .foreign _, _ => []
where
  /-- The slots of the fields of a struct at an address. -/
  fieldSlots : List (Field Layout) → Int → List Slot
  | [], _ => []
  | f :: rest, address => f.type.slots (address + f.offset) ++ fieldSlots rest address

theorem mem_fieldSlots {fields : List (Field Layout)} {address : Int} {s : Slot} :
    s ∈ slots.fieldSlots fields address ↔ ∃ f ∈ fields, s ∈ f.type.slots (address + f.offset) := by
  induction fields with
  | nil => simp [slots.fieldSlots]
  | cons f rest ih => simp [slots.fieldSlots, ih]

/-- The element behind the one at an index is that at the index from a stride further on. -/
theorem address_succ (address : Int) (i stride : Nat) :
    address + ((i + 1 : Nat) : Int) * stride = address + stride + i * stride := by
  rw [Int.natCast_add, Int.add_mul]
  omega

theorem mem_slotsOfEach {slotsAt : Int → List Slot} {stride count : Nat} {address : Int}
    {s : Slot} : s ∈ slotsOfEach slotsAt stride count address ↔
      ∃ i < count, s ∈ slotsAt (address + i * stride) := by
  induction count generalizing address with
  | zero => simp [slotsOfEach]
  | succ count ih =>
    rw [slotsOfEach, List.mem_append, ih]
    constructor
    · rintro (h | ⟨i, hi, h⟩)
      · exact ⟨0, by omega, by simpa using h⟩
      · refine ⟨i + 1, by omega, ?_⟩
        rwa [address_succ]
    · rintro ⟨i, hi, h⟩
      cases i with
      | zero => exact Or.inl (by simpa using h)
      | succ i =>
        refine Or.inr ⟨i, by omega, ?_⟩
        rwa [← address_succ]

/-- **All slots of a well laid out layout lie within its size.** -/
theorem slots_within {l : Layout} (h : l.isWellLaidOut = true) {address : Int} {s : Slot}
    (hs : s ∈ l.slots address) : s.LiesWithin ⟨address, l.size⟩ := by
  rw [Slot.liesWithin_mk]
  induction l generalizing address with
  | struct fields ih =>
    rw [isWellLaidOut, everyPart_struct] at h
    obtain ⟨f, hf, hs⟩ := mem_fieldSlots.mp hs
    have hend := end_le_fieldsSize h.1 f hf
    have hin := ih f hf (h.2 f hf) hs
    rw [size]
    omega
  | collection element count ih =>
    rw [isWellLaidOut, everyPart_collection] at h
    obtain ⟨i, hi, hs⟩ := mem_slotsOfEach.mp hs
    have hin := ih h.2 hs
    -- The element at `i` ends where the next one would start.
    have hnext : (i + 1) * element.size ≤ count * element.size := Nat.mul_le_mul_right _ hi
    rw [Nat.add_mul, Nat.one_mul] at hnext
    have hcast : (i : Int) * element.size = (i * element.size : Nat) := by simp
    rw [size]
    omega
  | foreign v => exact absurd hs List.not_mem_nil
  | _ =>
    rw [slots, List.mem_singleton] at hs
    subst hs
    simp [size]

end Layout

end TypedMemory
