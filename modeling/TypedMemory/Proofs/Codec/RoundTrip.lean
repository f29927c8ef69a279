import TypedMemory.Codec.Read
import TypedMemory.Proofs.Codec.Plan
import TypedMemory.Proofs.Value

/-!
# What is written is read again

Without pointers a value that was written comes back when it is read, up to what a slot
cannot tell apart: `TypedMemory.Codec.settled` takes whole numbers to the representative
that the slot has for them, floating point numbers to the nearest that it has, and texts to
their part before the first NUL (`TypedMemory.Codec.readAt_write`).

The proof has two halves that know nothing of each other. Writing is a row of stores into
the slots of the layout, and where these lie apart none of them undoes another, so in the end
every slot has the bytes that were stored there. And **wherever** every slot has the bytes of
a value, reading gives that value as it settles (`TypedMemory.Codec.Fits.read_eq`).
-/

namespace TypedMemory

/-! ### Arrays that can be read -/

mutual

/-- Whether the length of every array in the value can be spelled, as that of any array can that
has been made. -/
def Value.hasSpellableLengths : Value → Bool
  | .array items => Numeral.isSpellable items.length && Value.itemsSpellable items
  | .record entries => Value.entriesSpellable entries
  | _ => true

/-- The same for the items of an array. -/
def Value.itemsSpellable : List Value → Bool
  | [] => true
  | v :: rest => v.hasSpellableLengths && Value.itemsSpellable rest

/-- The same for the entries of a record. -/
def Value.entriesSpellable : List (Entry Value) → Bool
  | [] => true
  | e :: rest => e.value.hasSpellableLengths && Value.entriesSpellable rest

end

theorem Value.itemsSpellable_iff {items : List Value} :
    Value.itemsSpellable items = true ↔ ∀ v ∈ items, v.hasSpellableLengths = true := by
  induction items with
  | nil => simp [Value.itemsSpellable]
  | cons v rest ih => simp [Value.itemsSpellable, ih]

theorem Value.entriesSpellable_iff {entries : List (Entry Value)} :
    Value.entriesSpellable entries = true ↔
      ∀ e ∈ entries, e.value.hasSpellableLengths = true := by
  induction entries with
  | nil => simp [Value.entriesSpellable]
  | cons e rest ih => simp [Value.entriesSpellable, ih]

/-! ### Numbers that come back -/

/-- The representative of a whole number in the range that a slot is read in: below the middle
where the number is signed, and also where it takes all 64 bits. -/
def IntegerKind.representative (kind : IntegerKind) (n : Int) : Int :=
  match kind with
  | .uint8 | .uint16 | .uint32 => n % wordCount (8 * kind.width)
  | .uint64 | .int32 | .int64 => n.bmod (wordCount (8 * kind.width))

namespace Codec

theorem signedValue_wrapped {width : Nat} (hw : 0 < width) (n : Int) :
    signedValue (8 * width) (wrapped width n) = n.bmod (wordCount (8 * width)) := by
  rw [signedValue_eq_bmod (by omega) (wrapped_lt width n), cast_wrapped, Int.emod_bmod]

theorem integerValue_wrapped (kind : IntegerKind) (n : Int) :
    integerValue kind (wrapped kind.width n) = kind.representative n := by
  cases kind with
  | uint8 => exact cast_wrapped 1 n
  | uint16 => exact cast_wrapped 2 n
  | uint32 => exact cast_wrapped 4 n
  | uint64 => exact signedValue_wrapped (by decide) n
  | int32 => exact signedValue_wrapped (by decide) n
  | int64 => exact signedValue_wrapped (by decide) n

/-- The code of a number in the 32-bit format takes 32 bits. -/
theorem toSingle?_lt {x : Binary64} {code : Nat} (h : x.toSingle? = some code) :
    code < wordCount 32 := by
  have hword : wordCount 32 = 0x100000000 := rfl
  have hinfinity : Format.single.infinity = 0x7F800000 := rfl
  have hsign : (if x.isNegative then Format.single.signWeight else 0) ≤ 0x80000000 := by
    split
    · exact Nat.le_refl _
    · exact Nat.zero_le _
  simp only [Binary64.toSingle?] at h
  generalize (if x.isNegative then Format.single.signWeight else 0) = sign at h hsign
  split at h
  · cases h
    have hfraction : (x.magnitude % wordCount 52) >>> 29 < 2 ^ 23 := by
      have hmod : x.magnitude % wordCount 52 < 2 ^ 52 := Nat.mod_lt _ (by decide)
      rw [Nat.shiftRight_eq_div_pow]
      omega
    have hquiet := Nat.or_lt_two_pow (show 0x400000 < 2 ^ 23 by decide) hfraction
    omega
  · split at h
    · cases h
      omega
    · split at h
      · cases h
        omega
      · cases h

theorem numberCode?_lt {kind : FloatKind} {v : Value} {code : Nat}
    (h : numberCode? kind v = some code) : code < wordCount (8 * kind.width) := by
  have hcode : ∀ x, floatCode? kind x = some code → code < wordCount (8 * kind.width) := by
    intro x hx
    cases kind with
    | fp64 =>
      cases hx
      exact x.bits.isLt
    | fp32 => exact toSingle?_lt hx
  cases v with
  | int n =>
    obtain ⟨x, -, hx⟩ := Option.bind_eq_some_iff.mp h
    exact hcode x hx
  | float x tag => exact hcode x h
  | _ => cases h

/-! ### What values settle to -/

/-- **The value that is read again** where a value was written. -/
def settled : Layout → Value → Value
  | .integer kind, v =>
    match v with
    | .int n => .int (kind.representative n)
    | v => v
  | .float kind, v =>
    match numberCode? kind v with
    | some code => .float (floatValue kind code) none
    | none => v
  | .rawAddress width, v =>
    match v with
    | .int n => .address (n % wordCount (8 * width.bytes)).toNat
    | .address n => .address (n % wordCount (8 * width.bytes))
    | v => v
  | .text _, v =>
    match v with
    | .text t => .text (beforeNul t)
    | v => v
  | .wideText _, v =>
    match v with
    | .text t => .text (beforeNul t)
    | v => v
  | .struct fields, v =>
    match v with
    | .record entries => .record (settledFields fields entries)
    | v => v
  | .collection element _, v =>
    match v with
    | .array items => .array (items.map (settled element))
    | v => v
  | _, v => v
where
  /-- The fields of a struct, in their order, with what the entries have for them. -/
  settledFields : List (Field Layout) → List (Entry Value) → List (Entry Value)
  | [], _ => []
  | f :: rest, entries =>
    ⟨f.name, match Value.lookup? entries f.name with
      | some v => settled f.type v
      | none => .unit⟩ :: settledFields rest entries

theorem map_name_settledFields (fields : List (Field Layout)) (entries : List (Entry Value)) :
    (settled.settledFields fields entries).map Entry.name = fields.map Field.name := by
  induction fields with
  | nil => rfl
  | cons f rest ih => rw [settled.settledFields, List.map_cons, List.map_cons, ih]

/-! ### Reading what lies in the slots -/

/-- The options name encodings in which every text comes back up to its first NUL. -/
structure KeepsTexts (options : Options) : Prop where
  narrow : ∃ name e, (name, e) ∈ narrowNames ∧ options.textEncoding = some name
  wide : ∃ name e, (name, e) ∈ wideNames ∧ options.wideTextEncoding = some name

section RoundTrip

variable [Host] {options : Options} {m : Memory}

/-- The slot of a store has the bytes that were stored. -/
def Store.Lies (s : Store) (m : Memory) : Prop :=
  m.load s.address s.bytes.length = .ok s.bytes

omit [Host] in
theorem loadNumber_of_lies {width n : Nat} {address : Int}
    (h : Store.Lies ⟨address, options.byteOrder.store width n⟩ m) (hn : n < wordCount (8 * width)) :
    m.loadNumber options.byteOrder address width = .ok n := by
  rw [Store.Lies, ByteOrder.length_store] at h
  rw [Memory.loadNumber_of_ok h, ByteOrder.load_store_of_lt _ hn]

section Texts

variable {name : Text} {e : Encoding} {length : Nat} {t : Text} {bytes : Bytes}

/-- **A narrow slot** that has the bytes of a text is decoded up to the first NUL of the text. -/
theorem decodeText_narrow (hname : (name, e) ∈ narrowNames)
    (h : textBytes? (some name) length t = some bytes) (address : Int) :
    decodeText (some name) address (cutNarrow bytes) = .ok (beforeNul t) := by
  obtain ⟨coded, hcoded, -, rfl⟩ := textBytes?_eq_some_iff.mp h
  exact decodeText_cutNarrow hname hcoded address _

/-- **A wide slot** likewise. -/
theorem decodeText_wide (hname : (name, e) ∈ wideNames)
    (h : textBytes? (some name) (length * 2) t = some bytes) (address : Int) :
    decodeText (some name) address (cutWide bytes) = .ok (beforeNul t) := by
  obtain ⟨coded, hcoded, hle, rfl⟩ := textBytes?_eq_some_iff.mp h
  -- The zeros fill up a whole number of units, since the text does.
  obtain ⟨k, hk⟩ : ∃ k, length * 2 - coded.length = 2 * k := by
    have := two_dvd_length_wide hname hcoded
    exact ⟨(length * 2 - coded.length) / 2, by omega⟩
  rw [hk]
  exact decodeText_cutWide hname hcoded address k

end Texts

theorem read_text (ho : KeepsTexts options) {length : Nat} {address : Int} {t : Text}
    {bytes : Bytes} (h : textBytes? options.textEncoding length t = some bytes)
    (hm : Store.Lies ⟨address, bytes⟩ m) :
    read options m (.text length) address = .ok (.text (beforeNul t)) := by
  obtain ⟨name, e, hname, henc⟩ := ho.narrow
  rw [Store.Lies, length_of_textBytes? h] at hm
  rw [henc] at h
  rw [read, hm, henc]
  simp only [bind, Except.bind, decodeText_narrow hname h]
  rfl

theorem read_wideText (ho : KeepsTexts options) {length : Nat} {address : Int} {t : Text}
    {bytes : Bytes} (h : textBytes? options.wideTextEncoding (length * 2) t = some bytes)
    (hm : Store.Lies ⟨address, bytes⟩ m) :
    read options m (.wideText length) address = .ok (.text (beforeNul t)) := by
  obtain ⟨name, e, hname, henc⟩ := ho.wide
  rw [Store.Lies, length_of_textBytes? h] at hm
  rw [henc] at h
  rw [read, hm, henc]
  simp only [bind, Except.bind, decodeText_wide hname h]
  rfl

/-- **Reading a leaf** whose slot has the bytes of a value. -/
theorem read_leaf (ho : KeepsTexts options) {l : Layout} {v : Value} {bytes : Bytes}
    (h : leafBytes? options l v = some bytes) {address : Int}
    (hm : Store.Lies ⟨address, bytes⟩ m) : read options m l address = .ok (settled l v) := by
  cases l with
  | integer kind =>
    cases v with
    | int n =>
      cases h
      rw [read, loadNumber_of_lies hm (wrapped_lt _ _)]
      simp only [bind, Except.bind, integerValue_wrapped]
      rfl
    | _ => cases h
  | float kind =>
    obtain ⟨code, hcode, rfl⟩ := Option.map_eq_some_iff.mp h
    rw [read, loadNumber_of_lies hm (numberCode?_lt hcode), settled, hcode]
    rfl
  | rawAddress width =>
    cases v with
    | int n =>
      cases h
      rw [read, loadNumber_of_lies hm (wrapped_lt _ _)]
      rfl
    | address n =>
      cases h
      have hn : wrapped width.bytes n = n % wordCount (8 * width.bytes) := rfl
      rw [read, loadNumber_of_lies hm (wrapped_lt _ _), hn]
      rfl
    | _ => cases h
  | text length =>
    cases v with
    | text t => exact read_text ho h hm
    | _ => cases h
  | wideText length =>
    cases v with
    | text t => exact read_wideText ho h hm
    | _ => cases h
  | _ => cases h

theorem readFields_eq {fields : List (Field Layout)} {entries : List (Entry Value)}
    {address : Int} (each : ∀ f ∈ fields, ∃ v, Value.lookup? entries f.name = some v ∧
      read options m f.type (address + f.offset) = .ok (settled f.type v)) :
    read.readFields options m fields address = .ok (settled.settledFields fields entries) := by
  induction fields with
  | nil => rfl
  | cons f rest ih =>
    rw [List.forall_mem_cons] at each
    obtain ⟨v, hv, hread⟩ := each.1
    rw [read.readFields, hread, ih each.2, settled.settledFields, hv]
    rfl

omit [Host] in
theorem readEach_eq {readAt : Int → Except Error Value} {value : Value → Value} {stride : Nat}
    {items : List Value} {address : Int} (each : ∀ i (h : i < items.length),
      readAt (address + i * stride) = .ok (value items[i])) :
    readEach readAt stride items.length address = .ok (items.map value) := by
  induction items generalizing address with
  | nil => rfl
  | cons v rest ih =>
    have hfirst : readAt address = .ok (value v) := by
      have h := each 0 (by simp)
      rwa [Int.natCast_zero, Int.zero_mul, Int.add_zero] at h
    have hrest : readEach readAt stride rest.length (address + stride) = .ok (rest.map value) := by
      refine ih fun i hi => ?_
      have hnext := each (i + 1) (by simpa using hi)
      rwa [Layout.address_succ] at hnext
    rw [List.length_cons, readEach, hfirst, hrest]
    rfl

theorem mem_fieldAccesses {m₀ : Memory} {fields : List (Field Layout)}
    {entries : List (Entry Value)} {address : Int} {f : Field Layout} (hf : f ∈ fields) {v : Value}
    (hv : Value.lookup? entries f.name = some v) {a : Access}
    (ha : a ∈ accesses options m₀ f.type (address + f.offset) v) :
    a ∈ accesses.fieldAccesses options m₀ fields address entries := by
  induction fields with
  | nil => cases hf
  | cons g rest ih =>
    rw [accesses.fieldAccesses, List.mem_append]
    rcases List.mem_cons.mp hf with rfl | hf
    · exact Or.inl (by rwa [hv])
    · exact Or.inr (ih hf)

omit [Host] in
theorem mem_accessesOfEach {accessesAt : Int → Value → List Access} {stride : Nat}
    {items : List Value} {address : Int} {i : Nat} (hi : i < items.length) {a : Access}
    (ha : a ∈ accessesAt (address + i * stride) items[i]) :
    a ∈ accessesOfEach accessesAt stride items address := by
  induction items generalizing address i with
  | nil => cases hi
  | cons v rest ih =>
    rw [accessesOfEach, List.mem_append]
    cases i with
    | zero => exact Or.inl (by simpa using ha)
    | succ i =>
      refine Or.inr (ih (by simpa using hi) ?_)
      rwa [← Layout.address_succ]

omit [Host] in
theorem mem_stores {as : List Access} {s : Store} : s ∈ stores as ↔ .store s ∈ as := by
  simp only [stores, List.mem_filterMap]
  constructor
  · rintro ⟨a, ha, hs⟩
    cases a with
    | follow slot => cases hs
    | store t =>
      cases hs
      exact ha
  · exact fun h => ⟨_, h, rfl⟩

/-- **Reading what fits**: where every slot has the bytes that are stored for a value, the value
is read as it settles. -/
theorem Fits.read_eq (ho : KeepsTexts options) {l : Layout} {v : Value} (h : Fits options l v)
    (hg : l.isGenuine = true) (hp : l.isPointerFree = true) (hn : l.hasDistinctNames = true)
    (hv : v.hasSpellableLengths = true) (m₀ : Memory) {address : Int}
    (hm : ∀ s ∈ stores (accesses options m₀ l address v), s.Lies m) :
    read options m l address = .ok (settled l v) := by
  induction h generalizing address with
  | leaf h =>
    rw [accesses_leaf h] at hm
    exact read_leaf ho h (hm _ List.mem_cons_self)
  | pointer => simp at hp
  | @struct fields entries present _ ih =>
    rw [Layout.isGenuine, Layout.fieldsGenuine_iff] at hg
    rw [Layout.isPointerFree_struct] at hp
    rw [Layout.hasDistinctNames, Layout.everyPart_struct, decide_eq_true_eq] at hn
    rw [Value.hasSpellableLengths, Value.entriesSpellable_iff] at hv
    have hfields : read.readFields options m fields address =
        .ok (settled.settledFields fields entries) := by
      refine readFields_eq fun f hf => ?_
      obtain ⟨v, hlookup⟩ := present f hf
      obtain ⟨e, he, rfl⟩ := Value.exists_mem_of_lookup? hlookup
      refine ⟨e.value, hlookup,
        ih f hf _ hlookup (hg f hf) (hp f hf) (hn.2 f hf) (hv e he) fun s hs => ?_⟩
      exact hm s (mem_stores.mpr (mem_fieldAccesses hf hlookup (mem_stores.mp hs)))
    have hrecord : Value.ofEntries (settled.settledFields fields entries) =
        .record (settled.settledFields fields entries) :=
      Value.ofEntries_of_nodup (by rw [map_name_settledFields]; exact hn.1)
    rw [read, hfields, settled, ← hrecord]
    rfl
  | @collection element items _ ih =>
    rw [Layout.isPointerFree_collection] at hp
    rw [Layout.hasDistinctNames, Layout.everyPart_collection] at hn
    rw [Value.hasSpellableLengths, Bool.and_eq_true, Value.itemsSpellable_iff] at hv
    have hitems : readEach (read options m element) element.size items.length address =
        .ok (items.map (settled element)) := by
      refine readEach_eq fun i hi => ?_
      have hmem : items[i] ∈ items := List.getElem_mem hi
      refine ih _ hmem hg hp hn.2 (hv.2 _ hmem) fun s hs => ?_
      exact hm s (mem_stores.mpr (mem_accessesOfEach hi (mem_stores.mp hs)))
    have hspell : spellable items.length = .ok () := by rw [spellable, if_pos hv.1]
    have hsize : element.size? = .ok element.size := Layout.size?_eq_ok hg
    rw [read, hspell, hsize]
    simp only [bind, Except.bind, hitems, settled]
    rfl

/-! ### Stores into the slots of a layout -/

/-- A plan that follows nothing and is a row of stores, one into each of the slots. -/
def Fills (as : List Access) (slots : List Slot) : Prop :=
  ∃ ss : List Store, as = ss.map Access.store ∧ ss.map Store.slot = slots

namespace Fills

omit [Host] in
theorem nil : Fills [] [] := ⟨[], rfl, rfl⟩

omit [Host] in
theorem append {as bs : List Access} {ss ts : List Slot} (h : Fills as ss) (h' : Fills bs ts) :
    Fills (as ++ bs) (ss ++ ts) := by
  obtain ⟨first, rfl, rfl⟩ := h
  obtain ⟨more, rfl, rfl⟩ := h'
  exact ⟨first ++ more, List.map_append.symm, List.map_append⟩

theorem leaf {l : Layout} {v : Value} {bytes : Bytes} (h : leafBytes? options l v = some bytes)
    (m₀ : Memory) (address : Int) :
    Fills (accesses options m₀ l address v) (l.slots address) :=
  ⟨[⟨address, bytes⟩], accesses_leaf h m₀ address, (slots_of_leafBytes? h address).symm⟩

theorem fields {m₀ : Memory} {fields : List (Field Layout)} {entries : List (Entry Value)}
    (present : ∀ f ∈ fields, ∃ v, Value.lookup? entries f.name = some v)
    (each : ∀ f ∈ fields, ∀ v, Value.lookup? entries f.name = some v → ∀ address,
      Fills (accesses options m₀ f.type address v) (f.type.slots address)) (address : Int) :
    Fills (accesses.fieldAccesses options m₀ fields address entries)
      (Layout.slots.fieldSlots fields address) := by
  induction fields with
  | nil => exact nil
  | cons f rest ih =>
    rw [List.forall_mem_cons] at present each
    obtain ⟨v, hv⟩ := present.1
    rw [fieldAccesses_cons hv, Layout.slots.fieldSlots]
    exact (each.1 v hv _).append (ih present.2 each.2)

omit [Host] in
theorem each {accessesAt : Int → Value → List Access} {slotsAt : Int → List Slot}
    {items : List Value}
    (h : ∀ v ∈ items, ∀ address, Fills (accessesAt address v) (slotsAt address)) (stride : Nat)
    (address : Int) :
    Fills (accessesOfEach accessesAt stride items address)
      (Layout.slotsOfEach slotsAt stride items.length address) := by
  induction items generalizing address with
  | nil => exact nil
  | cons v rest ih =>
    rw [List.forall_mem_cons] at h
    rw [accessesOfEach, List.length_cons, Layout.slotsOfEach]
    exact (h.1 _).append (ih h.2 _)

end Fills

/-- **Without pointers a plan fills the slots** of the layout, one store into each. -/
theorem Fits.fills {l : Layout} {v : Value} (h : Fits options l v) (hp : l.isPointerFree = true)
    (m₀ : Memory) (address : Int) :
    Fills (accesses options m₀ l address v) (l.slots address) := by
  induction h generalizing address with
  | leaf h => exact .leaf h m₀ address
  | pointer => simp at hp
  | struct present _ ih =>
    rw [Layout.isPointerFree_struct] at hp
    exact .fields present (fun f hf v hv => ih f hf v hv (hp f hf)) address
  | @collection element items _ ih =>
    rw [Layout.isPointerFree_collection] at hp
    exact .each (fun v hv => ih v hv hp) element.size address

omit [Host] in
@[simp] theorem stores_map_store (ss : List Store) : stores (ss.map Access.store) = ss := by
  induction ss with
  | nil => rfl
  | cons s rest ih => rw [List.map_cons, stores_store, ih]

omit [Host] in
@[simp] theorem followed_map_store (ss : List Store) : followed (ss.map Access.store) = [] := by
  induction ss with
  | nil => rfl
  | cons s rest ih => rw [List.map_cons, followed_store, ih]

/-- **Stores that lie apart** are all there in the end. -/
theorem lies_storeAll {stores : List Store} (hf : m.fault = none)
    (h : ∀ s ∈ stores, s.fault? m = none)
    (hdisjoint : (stores.map Store.slot).Pairwise Slot.Disjoint) :
    ∀ s ∈ stores, s.Lies (storeAll m stores) := by
  induction stores generalizing m with
  | nil => exact fun s hs => absurd hs List.not_mem_nil
  | cons s rest ih =>
    rw [List.forall_mem_cons] at h
    rw [List.map_cons, List.pairwise_cons] at hdisjoint
    have hframe := Store.sameFrame_replace h.1
    have hrest : ∀ t ∈ rest, t.fault? (m.replace s.address s.bytes) = none := fun t ht =>
      (Store.fault?_congr hframe t).trans (h.2 t ht)
    rw [List.forall_mem_cons]
    refine ⟨?_, ih (hframe.fault.trans hf) hrest hdisjoint.2⟩
    -- What was stored first is disturbed by none of the others.
    have hlater : ∀ t ∈ rest, s.slot.Disjoint t.slot := fun t ht =>
      hdisjoint.1 _ (List.mem_map_of_mem ht)
    exact (load_storeAll_of_disjoint hrest hlater).trans (Store.load_replace_self hf h.1)

theorem fillingFault?_of_lt_room {n : Nat} (h : n < Host.room) : fillingFault? n = none := by
  have hlimit := Host.room_le_rowLimit
  rw [fillingFault?, if_neg (by omega), if_neg (by omega)]

/-- Bytes that lie in a memory can be made, since those of the memory have been. -/
theorem isPossible_of_liesIn (hroom : m.bytes.length < Host.room) {s : Store}
    (h : s.slot.LiesIn m) : s.IsPossible m := by
  refine ⟨fillingFault?_of_lt_room ?_, h⟩
  rcases h with h | h
  · have hzero : s.bytes.length = 0 := h
    omega
  · have hc := Memory.covers_iff.mp h
    simp only [Store.slot] at hc
    omega

/-- **The round trip.** In a memory that can be written, where the slots of the layout lie apart
from each other and inside of the memory, writing a value that passes the check ends well, and
reading gives the value as it settles.

The memory and the arrays of the value are such as can be made: no memory takes up all the room
there is, and no array is so long that its length could not be spelled. -/
theorem readAt_write {l : Layout} (hg : l.isGenuine = true) (hp : l.isPointerFree = true)
    (hn : l.hasDistinctNames = true) (ho : KeepsTexts options) {v : Value}
    (hc : check options l v = .ok ()) (hv : v.hasSpellableLengths = true) (hm : m.IsWritable)
    (hroom : m.bytes.length < Host.room) {at_ : Value} {address : Nat}
    (hat : at_.location = .ok address) (hdisjoint : (l.slots address).Pairwise Slot.Disjoint)
    (hin : ∀ s ∈ l.slots address, s.LiesIn m) :
    ∃ m', write options l at_ v m = (.ok (), m') ∧
      readAt options m' l at_ = .ok (settled l v) := by
  have hfits := check_eq_ok_iff.mp hc
  obtain ⟨ss, hplan, hslots⟩ := hfits.fills hp m address
  have hfault : ∀ s ∈ ss, s.fault? m = none := by
    intro s hs
    have hmem : s.slot ∈ l.slots address := by
      rw [← hslots]
      exact List.mem_map_of_mem hs
    exact (isPossible_of_liesIn hroom (hin _ hmem)).fault? hm
  have hundisturbed : Undisturbed m (accesses options m l address v) :=
    .of_followed_eq_nil (by rw [hplan, followed_map_store])
  refine ⟨storeAll m ss, ?_, ?_⟩
  · rw [write_eq_performAll hg hc hat hundisturbed, hplan, stores_map_store]
    exact performAll_of_forall hfault
  · rw [readAt, hat]
    refine hfits.read_eq ho hg hp hn hv m ?_
    rw [hplan, stores_map_store]
    exact lies_storeAll hm.fault hfault (by rw [hslots]; exact hdisjoint)

end RoundTrip

set_option maxRecDepth 4000 in
/-- Numbers out of range come back as their representatives, and a text up to its NUL. -/
theorem readAt_write_record :
    let l := Layout.struct [⟨0, "id", .integer .uint16⟩, ⟨2, "name", .text 4⟩,
      ⟨6, "balance", .collection (.integer .int32) 1⟩]
    let v := Value.record [⟨"balance", .array [.int 4294967295]⟩, ⟨"more", .unit⟩,
      ⟨"id", .int (-1)⟩, ⟨"name", .text [CodePoint.ofNat 233, CodePoint.ofNat 0, 'x']⟩]
    ∃ m', write {} l (.int 3) v { bytes := List.replicate 11 1, base := 2 } = (.ok (), m') ∧
      readAt {} m' l (.int 3) = .ok (.record [⟨"id", .int 65535⟩,
        ⟨"name", .text [CodePoint.ofNat 233]⟩, ⟨"balance", .array [.int (-1)]⟩]) := by
  intro l v
  have ho : KeepsTexts {} :=
    ⟨⟨"utf-8", .utf8, by simp [narrowNames], rfl⟩,
      ⟨"utf-16-le", .utf16 .little, by simp [wideNames], rfl⟩⟩
  have hat : (Value.int 3).location = .ok 3 := rfl
  exact readAt_write (l := l) (v := v) rfl rfl (by decide) ho rfl (by decide) ⟨rfl, rfl⟩
    (by decide) hat (by decide) (by decide)

end Codec

end TypedMemory
