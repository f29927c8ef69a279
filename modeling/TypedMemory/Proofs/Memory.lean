import TypedMemory.Codec.Access

/-!
# Memory as bytes at addresses

A memory that lets itself be written is a map from addresses to bytes. Writing into a range
that it covers changes the bytes there and nothing else: not the bytes at other addresses
(`TypedMemory.Memory.byteAt?_replace_of_not_mem`), and not where the memory lies
(`TypedMemory.Memory.SameFrame`). So a slot apart from the range loads as before, and the
range itself loads as it was written.

What can be loaded from a slot, and whether a slot can be written, hangs on no more than the
frame and the bytes of that slot. A slot of no bytes lies everywhere and overlaps nothing.
-/

namespace TypedMemory

/-- A run of bytes in memory: where it starts, and how long it is. -/
structure Slot where
  address : Int
  length : Nat
  deriving DecidableEq

namespace Slot

/-- The address is that of one of the bytes. -/
def Contains (s : Slot) (x : Int) : Prop :=
  s.address ≤ x ∧ x < s.address + s.length

instance (s : Slot) (x : Int) : Decidable (s.Contains x) :=
  inferInstanceAs (Decidable (_ ∧ _))

/-- Two slots have no byte in common. -/
def Disjoint (s t : Slot) : Prop :=
  ∀ x, s.Contains x → ¬t.Contains x

/-- Disjointness by the ends of the slots. -/
theorem disjoint_iff {s t : Slot} :
    s.Disjoint t ↔ s.length = 0 ∨ t.length = 0 ∨ s.address + s.length ≤ t.address ∨
      t.address + t.length ≤ s.address := by
  constructor
  · intro h
    -- Slots of which neither lies before the other share the greater of their starts.
    refine Decidable.byContradiction fun hcon => h (max s.address t.address) ?_ ?_
    · exact ⟨by omega, by omega⟩
    · exact ⟨by omega, by omega⟩
  · rintro h x ⟨h₁, h₂⟩ ⟨h₃, h₄⟩
    omega

instance (s t : Slot) : Decidable (s.Disjoint t) :=
  decidable_of_iff _ disjoint_iff.symm

/-- The bytes of one slot are among those of another. -/
def LiesWithin (s t : Slot) : Prop :=
  t.address ≤ s.address ∧ s.address + s.length ≤ t.address + t.length

theorem liesWithin_mk {s : Slot} {address : Int} {length : Nat} :
    s.LiesWithin ⟨address, length⟩ ↔
      address ≤ s.address ∧ s.address + s.length ≤ address + length := Iff.rfl

theorem Contains.of_liesWithin {s t : Slot} (h : s.LiesWithin t) {x : Int}
    (hx : s.Contains x) : t.Contains x := by
  obtain ⟨hstart, hstop⟩ := h
  obtain ⟨hlow, hhigh⟩ := hx
  exact ⟨by omega, by omega⟩

/-- The memory has all the bytes of the slot, if it has any. -/
def LiesIn (s : Slot) (m : Memory) : Prop :=
  s.length = 0 ∨ m.covers s.address s.length = true

instance (s : Slot) (m : Memory) : Decidable (s.LiesIn m) :=
  inferInstanceAs (Decidable (_ ∨ _))

end Slot

namespace Memory

/-! ### The frame -/

/-- Two memories lie in the same place and answer accesses in the same way. -/
structure SameFrame (m m' : Memory) : Prop where
  base : m'.base = m.base
  length : m'.bytes.length = m.bytes.length
  readOnly : m'.readOnly = m.readOnly
  fault : m'.fault = m.fault

namespace SameFrame

variable {m₁ m₂ m₃ : Memory}

theorem refl (m : Memory) : SameFrame m m := ⟨rfl, rfl, rfl, rfl⟩

theorem symm (h : SameFrame m₁ m₂) : SameFrame m₂ m₁ :=
  ⟨h.base.symm, h.length.symm, h.readOnly.symm, h.fault.symm⟩

theorem trans (h : SameFrame m₁ m₂) (h' : SameFrame m₂ m₃) : SameFrame m₁ m₃ :=
  ⟨h'.base.trans h.base, h'.length.trans h.length, h'.readOnly.trans h.readOnly,
    h'.fault.trans h.fault⟩

theorem limit (h : SameFrame m₁ m₂) : m₂.limit = m₁.limit := by
  rw [Memory.limit, Memory.limit, h.base, h.length]

theorem covers (h : SameFrame m₁ m₂) (address count : Int) :
    m₂.covers address count = m₁.covers address count := by
  rw [Memory.covers, Memory.covers, h.base, h.limit]

theorem index (h : SameFrame m₁ m₂) (address : Int) : m₂.index address = m₁.index address := by
  rw [Memory.index, Memory.index, h.base]

theorem writeFault? (h : SameFrame m₁ m₂) (address count : Int) :
    m₂.writeFault? address count = m₁.writeFault? address count := by
  rw [Memory.writeFault?, Memory.writeFault?, h.covers, h.fault, h.readOnly, h.base, h.limit]

end SameFrame

theorem covers_iff {m : Memory} {address count : Int} :
    m.covers address count = true ↔
      m.base ≤ address ∧ 0 ≤ count ∧ address + count ≤ m.base + m.bytes.length := by
  rw [covers]
  simp only [Bool.and_eq_true, decide_eq_true_eq, and_assoc]
  rfl

/-- Memory that can be written, on a device without faults. -/
structure IsWritable (m : Memory) : Prop where
  fault : m.fault = none
  readOnly : m.readOnly = false

/-- Memory that is read-only refuses every write. -/
theorem readOnly_of_writeFault? {m : Memory} {address count : Int}
    (h : m.writeFault? address count = none) : m.readOnly = false := by
  rw [writeFault?] at h
  split at h
  · cases h
  · split at h
    · cases h
    case isFalse hr => simpa using hr

/-- Memory refuses what it does not cover. -/
theorem covers_of_writeFault? {m : Memory} {address count : Int}
    (h : m.writeFault? address count = none) : m.covers address count = true := by
  rw [writeFault?] at h
  split at h
  · cases h
  · split at h
    · cases h
    · split at h
      · cases h
      case isFalse hc => simpa using hc

/-! ### Bytes at addresses -/

/-- **The byte at an address**, if the memory has one there. -/
def byteAt? (m : Memory) (x : Int) : Option UInt8 :=
  if m.base ≤ x then m.bytes[m.index x]? else none

theorem byteAt?_of_le {m : Memory} {x : Int} (h : m.base ≤ x) :
    m.byteAt? x = m.bytes[m.index x]? := if_pos h

theorem byteAt?_of_lt {m : Memory} {x : Int} (h : x < m.base) : m.byteAt? x = none :=
  if_neg (by omega)

/-- A memory is its frame and the bytes at its addresses. -/
theorem eq_of_byteAt? {m m' : Memory} (hframe : SameFrame m m')
    (h : ∀ x, m'.byteAt? x = m.byteAt? x) : m' = m := by
  have hbytes : m'.bytes = m.bytes := by
    refine List.ext_getElem? fun i => ?_
    have hindex : ∀ k : Memory, k.byteAt? (k.base + i) = k.bytes[i]? := fun k => by
      rw [byteAt?_of_le (by omega), index]
      congr 1
      omega
    rw [← hindex m', ← hindex m, hframe.base]
    exact h _
  obtain ⟨bytes, base, readOnly, fault⟩ := m
  obtain ⟨bytes', base', readOnly', fault'⟩ := m'
  obtain ⟨rfl, -, rfl, rfl⟩ := hframe
  exact congrArg (Memory.mk · base' readOnly' fault') hbytes

theorem getElem?_slice (m : Memory) (address : Int) (count i : Nat) :
    (m.slice address count)[i]? = if i < count then m.bytes[m.index address + i]? else none := by
  rw [slice, List.getElem?_take]
  by_cases h : i < count
  · rw [if_pos h, if_pos h, List.getElem?_drop]
  · rw [if_neg h, if_neg h]

/-- A covered slice spells out the bytes at its addresses. -/
theorem getElem?_slice_eq_byteAt? {m : Memory} {address : Int} {count i : Nat}
    (hb : m.base ≤ address) (hi : i < count) :
    (m.slice address count)[i]? = m.byteAt? (address + i) := by
  have hindex : m.index address + i = m.index (address + i) := by
    rw [index, index]
    omega
  rw [getElem?_slice, if_pos hi, byteAt?, if_pos (by omega), hindex]

/-- Two memories with the same bytes in a slot load the same from it. -/
theorem load_congr {m m' : Memory} {address : Int} {count : Nat} (hf : SameFrame m m')
    (h : ∀ x, (Slot.mk address count).Contains x → m'.byteAt? x = m.byteAt? x) :
    m'.load address count = m.load address count := by
  by_cases hc : m.covers address count = true
  · have hslice : m'.slice address count = m.slice address count := by
      refine List.ext_getElem? fun i => ?_
      by_cases hi : i < count
      · have hb := (covers_iff.mp hc).1
        rw [getElem?_slice_eq_byteAt? (by rw [hf.base]; exact hb) hi,
          getElem?_slice_eq_byteAt? hb hi]
        refine h _ ⟨?_, ?_⟩
        · show address ≤ address + i
          omega
        · show address + i < address + count
          omega
      · rw [getElem?_slice, getElem?_slice, if_neg hi, if_neg hi]
    simp only [load, readBytes, hf.covers, hf.fault, outOfRange, hf.base, hf.limit,
      Int.toNat_natCast, hslice]
  · simp only [load, readBytes, hf.covers, hf.fault, outOfRange, hf.base, hf.limit, hc,
      Bool.not_false, if_true]

/-- What is loaded has as many bytes as were asked for. -/
theorem length_of_load {m : Memory} {address : Int} {count : Nat} {data : Bytes}
    (h : m.load address count = .ok data) : data.length = count := by
  rw [load] at h
  split at h
  case isTrue hcount =>
    cases h
    exact hcount.symm
  case isFalse =>
    split at h
    · cases h
    · split at h
      case isTrue hlen =>
        cases h
        exact hlen
      case isFalse => cases h

theorem loadNumber_of_ok {m : Memory} {order : ByteOrder} {address : Int} {width : Nat}
    {data : Bytes} (h : m.load address width = .ok data) :
    m.loadNumber order address width = .ok (order.load data) := by
  rw [loadNumber, h]
  rfl

theorem loadNumber_of_error {m : Memory} {order : ByteOrder} {address : Int} {width : Nat}
    {e : Error} (h : m.load address width = .error e) :
    m.loadNumber order address width = .error e := by
  rw [loadNumber, h]
  rfl

/-! ### Replacing bytes -/

section Replace

variable {m : Memory} {address : Int} {data : Bytes}

@[simp] theorem base_replace : (m.replace address data).base = m.base := rfl

theorem bytes_replace : (m.replace address data).bytes =
    m.bytes.take (m.index address) ++ data ++ m.bytes.drop (m.index address + data.length) :=
  rfl

/-- Bytes put into a covered range leave the memory where it is. -/
theorem sameFrame_replace (h : m.covers address data.length = true) :
    SameFrame m (m.replace address data) := by
  have hc := covers_iff.mp h
  refine ⟨rfl, ?_, rfl, rfl⟩
  simp only [bytes_replace, index, List.length_append, List.length_take, List.length_drop]
  omega

theorem byteAt?_replace (h : m.covers address data.length = true) (x : Int) :
    (m.replace address data).byteAt? x =
      if (Slot.mk address data.length).Contains x then data[(x - address).toNat]?
      else m.byteAt? x := by
  have hc := covers_iff.mp h
  have hmem : (Slot.mk address data.length).Contains x ↔
      address ≤ x ∧ x < address + data.length := Iff.rfl
  by_cases hx : m.base ≤ x
  · have htake : (m.bytes.take (m.index address)).length = m.index address := by
      rw [List.length_take, index]
      omega
    rw [byteAt?_of_le (show (m.replace address data).base ≤ x from hx), byteAt?_of_le hx,
      bytes_replace, List.append_assoc]
    simp only [index, base_replace] at htake ⊢
    by_cases h₁ : x < address
    · rw [if_neg (by rw [hmem]; omega), List.getElem?_append_left (by omega),
        List.getElem?_take, if_pos (by omega)]
    · rw [List.getElem?_append_right (by omega), htake]
      by_cases h₂ : x < address + data.length
      · rw [if_pos (hmem.mpr ⟨by omega, h₂⟩), List.getElem?_append_left (by omega)]
        congr 1
        omega
      · rw [if_neg (by rw [hmem]; omega), List.getElem?_append_right (by omega),
          List.getElem?_drop]
        congr 1
        omega
  · rw [byteAt?_of_lt (show x < (m.replace address data).base by rw [base_replace]; omega),
      byteAt?_of_lt (by omega), if_neg (by rw [hmem]; omega)]

/-- Outside of the range nothing changes. -/
theorem byteAt?_replace_of_not_mem (h : m.covers address data.length = true) {x : Int}
    (hx : ¬(Slot.mk address data.length).Contains x) :
    (m.replace address data).byteAt? x = m.byteAt? x := by
  rw [byteAt?_replace h, if_neg hx]

/-- **What was put in is loaded again.** -/
theorem load_replace_self (hf : m.fault = none) (h : m.covers address data.length = true) :
    (m.replace address data).load address data.length = .ok data := by
  have hframe := sameFrame_replace h
  have hslice : (m.replace address data).slice address data.length = data := by
    refine List.ext_getElem? fun i => ?_
    by_cases hi : i < data.length
    · rw [getElem?_slice_eq_byteAt? (by rw [hframe.base]; exact (covers_iff.mp h).1) hi,
        byteAt?_replace h, if_pos ?_]
      · congr 1
        omega
      · show address ≤ address + i ∧ address + i < address + data.length
        omega
    · rw [getElem?_slice, if_neg hi, List.getElem?_eq_none (by omega)]
  by_cases hd : data.length = 0
  · rw [load, if_pos hd, List.length_eq_zero_iff.mp hd]
  · simp [load, hd, readBytes, hframe.fault, hf, hframe.covers, h, hslice]

end Replace

end Memory

end TypedMemory
