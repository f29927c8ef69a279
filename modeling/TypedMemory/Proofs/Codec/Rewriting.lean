import TypedMemory.Proofs.Binary64
import TypedMemory.Proofs.Codec.RoundTrip
import TypedMemory.Proofs.Codec.TextSlots

/-!
# What was read is written back

Without pointers, a value that was read can be written where it was read, and the bytes that
this stores are those that are there already, but for what stands behind the end of a text
(`TypedMemory.Codec.write_readAt`). Where no text is in the layout, every single store puts bytes
over the same bytes, so nothing changes even if the slots lie one over the other. With
texts they have to lie apart: the zeros behind a text could go over what another slot has.

The plan of the write is found from the stops of the reading. Each slot that was read gets one
store (`TypedMemory.Codec.Stop.rewritten?`), and by induction on the layout the value that
was read fits and has just these stores (`TypedMemory.Codec.rewritten_of_read`).
-/

namespace TypedMemory

/-! ### Values without NaN -/

mutual

/-- Whether some number in the value is a NaN. -/
def Value.hasNaN : Value → Bool
  | .float x _ => x.isNaN
  | .array items => Value.itemsHaveNaN items
  | .record entries => Value.entriesHaveNaN entries
  | _ => false

/-- The same for the items of an array. -/
def Value.itemsHaveNaN : List Value → Bool
  | [] => false
  | v :: rest => v.hasNaN || Value.itemsHaveNaN rest

/-- The same for the entries of a record. -/
def Value.entriesHaveNaN : List (Entry Value) → Bool
  | [] => false
  | e :: rest => e.value.hasNaN || Value.entriesHaveNaN rest

end

theorem Value.itemsHaveNaN_eq_false_iff {items : List Value} :
    Value.itemsHaveNaN items = false ↔ ∀ v ∈ items, v.hasNaN = false := by
  induction items with
  | nil => simp [Value.itemsHaveNaN]
  | cons v rest ih => simp [Value.itemsHaveNaN, ih]

theorem Value.entriesHaveNaN_eq_false_iff {entries : List (Entry Value)} :
    Value.entriesHaveNaN entries = false ↔ ∀ e ∈ entries, e.value.hasNaN = false := by
  induction entries with
  | nil => simp [Value.entriesHaveNaN]
  | cons e rest ih => simp [Value.entriesHaveNaN, ih]

/-- No part is a text. -/
def Layout.isTextFree (l : Layout) : Bool :=
  l.everyPart fun
    | .text _ | .wideText _ => false
    | _ => true

namespace Codec

variable {options : Options} {m m' : Memory}

/-! ### Numbers that were read -/

/-- **A whole number that was read** is stored as the word it was read from. -/
theorem wrapped_integerValue (kind : IntegerKind) {n : Nat} (h : n < wordCount (8 * kind.width)) :
    wrapped kind.width (integerValue kind n) = n := by
  have hmod :
      ((n : Int) - wordCount (8 * kind.width)) % (wordCount (8 * kind.width) : Nat) = n := by
    rw [Int.sub_emod_right, Int.emod_eq_of_lt (Int.natCast_nonneg n) (by omega)]
  have hself : (n : Int) % (wordCount (8 * kind.width) : Nat) = n :=
    Int.emod_eq_of_lt (Int.natCast_nonneg n) (by omega)
  rw [wrapped, integerValue, signedValue]
  split
  · split
    · rw [hself, Int.toNat_natCast]
    · rw [hmod, Int.toNat_natCast]
  · rw [hself, Int.toNat_natCast]

theorem wrapped_natCast {width n : Nat} (h : n < wordCount (8 * width)) : wrapped width n = n := by
  rw [wrapped, Int.emod_eq_of_lt (Int.natCast_nonneg n) (by omega), Int.toNat_natCast]

/-- **A floating point number that was read** has the code it was read from, unless it is a
NaN. -/
theorem floatCode?_floatValue (kind : FloatKind) {n : Nat} (h : n < wordCount (8 * kind.width))
    (hnan : (floatValue kind n).isNaN = false) : floatCode? kind (floatValue kind n) = some n := by
  cases kind with
  | fp32 => exact Binary64.toSingle?_ofSingle h hnan
  | fp64 =>
    have hbits : (BitVec.ofNat 64 n).toNat = n :=
      (BitVec.toNat_ofNat n 64).trans (Nat.mod_eq_of_lt h)
    exact congrArg some hbits

/-! ### The slots of a reading that ended well -/

/-- What was loaded from a slot are its bytes in memory. -/
theorem eq_slice_of_load {slot : Slot} (hm : m.fault = none) {data : Bytes}
    (h : m.load slot.address slot.length = .ok data) :
    slot.LiesIn m ∧ data = m.slice slot.address slot.length := by
  by_cases hin : slot.LiesIn m
  · rw [Memory.load_of_liesIn hm hin] at h
    exact ⟨hin, (Except.ok.inj h).symm⟩
  · rw [Memory.load_of_not_liesIn hm hin] at h
    cases h

/-- A number that was loaded is that of the bytes in memory, which are as many as the slot has. -/
theorem slice_of_loadNumber (slot : Slot) (hm : m.fault = none) {order : ByteOrder} {n : Nat}
    (h : m.loadNumber order slot.address slot.length = .ok n) :
    n < wordCount (8 * slot.length) ∧
      order.store slot.length n = m.slice slot.address slot.length := by
  rw [Memory.loadNumber] at h
  cases hload : m.load slot.address slot.length with
  | error e =>
    rw [hload] at h
    cases h
  | ok data =>
    rw [hload] at h
    cases h
    obtain ⟨hin, rfl⟩ := eq_slice_of_load hm hload
    have hlen := Memory.length_slice_of_liesIn hin
    exact ⟨order.load_lt hlen, order.store_load hlen⟩

/-- **The store that puts back** what was read at a stop. -/
def Stop.rewritten? (m : Memory) : Stop → Option Store
  | count _ => none
  | number slot => some ⟨slot.address, m.slice slot.address slot.length⟩
  | text kind slot => some ⟨slot.address, kind.blanked (m.slice slot.address slot.length)⟩

/-- The stores that put back what was read at the stops of a layout. -/
def rewritten (m : Memory) (l : Layout) (address : Int) : List Store :=
  (l.stops address).filterMap (Stop.rewritten? m)

/-- The value fits the layout, and to write it is to put back what was read. -/
structure Rewrites [Host] (options : Options) (m m₀ : Memory) (l : Layout) (address : Int)
    (v : Value) : Prop where
  fits : Fits options l v
  plan : accesses options m₀ l address v = (rewritten m l address).map Access.store

section Rewrites

variable [Host] {m₀ : Memory} {address : Int} {v : Value}

theorem Rewrites.leaf {l : Layout} {bytes : Bytes} (h : leafBytes? options l v = some bytes)
    (hstops : rewritten m l address = [⟨address, bytes⟩]) :
    Rewrites options m m₀ l address v :=
  ⟨.leaf h, by rw [accesses_leaf h, hstops]; rfl⟩

/-- A leaf that is a number. -/
theorem Rewrites.number {l : Layout} {width n : Nat}
    (h : leafBytes? options l v = some (options.byteOrder.store width n))
    (hstops : l.stops address = [.number ⟨address, width⟩])
    (hbytes : options.byteOrder.store width n = m.slice address width) :
    Rewrites options m m₀ l address v :=
  .leaf h (by rw [rewritten, hstops, hbytes]; rfl)

/-- A leaf that is a text. -/
theorem Rewrites.text (kind : TextKind) {l : Layout} {holds : Nat} {t : Text} {data : Bytes}
    (ho : HasUnmarkedEncodings options) (hm : m.fault = none)
    (hdvd : kind.unit ∣ holds) (hdata : m.load address holds = .ok data)
    (ht : decodeText (kind.encoding options) address (kind.cut data) = .ok t)
    (h : leafBytes? options l (.text t) = textBytes? (kind.encoding options) holds t)
    (hstops : l.stops address = [.text kind ⟨address, holds⟩]) :
    Rewrites options m m₀ l address (.text t) := by
  have hlen := Memory.length_of_load hdata
  obtain ⟨-, rfl⟩ : (Slot.mk address holds).LiesIn m ∧ data = m.slice address holds :=
    eq_slice_of_load hm hdata
  obtain ⟨name, e, hname, hfault, he, hmark⟩ := ho kind
  rw [hname] at ht h
  have hbytes := textBytes?_of_decodeText hfault he hmark hdvd hlen ht
  exact .leaf (h.trans hbytes) (by rw [rewritten, hstops]; rfl)

/-- What was read for the fields of a struct, under their names. -/
theorem map_name_of_readFields {fields : List (Field Layout)} {entries : List (Entry Value)}
    (h : read.readFields options m fields address = .ok entries) :
    entries.map Entry.name = fields.map Field.name := by
  induction fields generalizing entries with
  | nil =>
    cases h
    rfl
  | cons f rest ih =>
    obtain ⟨v, -, h⟩ := exists_of_bind_eq_ok h
    obtain ⟨more, hmore, h⟩ := exists_of_bind_eq_ok h
    cases h
    rw [List.map_cons, List.map_cons, ih hmore]

/-- Where fields have names of their own, what was read for each of them is found by its name. -/
theorem lookup?_of_readFields {fields : List (Field Layout)} {entries : List (Entry Value)}
    (hn : (fields.map Field.name).Nodup)
    (h : read.readFields options m fields address = .ok entries) :
    ∀ f ∈ fields, ∃ v, Value.lookup? entries f.name = some v ∧
      read options m f.type (address + f.offset) = .ok v := by
  induction fields generalizing entries with
  | nil => exact nofun
  | cons f rest ih =>
    rw [List.map_cons, List.nodup_cons] at hn
    obtain ⟨v, hv, h⟩ := exists_of_bind_eq_ok h
    obtain ⟨more, hmore, h⟩ := exists_of_bind_eq_ok h
    cases h
    refine List.forall_mem_cons.mpr ⟨⟨v, by simp [Value.lookup?], hv⟩, fun g hg => ?_⟩
    obtain ⟨w, hw, hread⟩ := ih hn.2 hmore g hg
    have hne : f.name ≠ g.name := fun heq => hn.1 (heq ▸ List.mem_map_of_mem hg)
    refine ⟨w, ?_, hread⟩
    rw [Value.lookup?, List.find?_cons_of_neg (by simpa using hne)]
    exact hw

/-- The plan for the entries of a struct, from the plans for its fields. -/
theorem fieldAccesses_eq {fields : List (Field Layout)} {entries : List (Entry Value)}
    (each : ∀ f ∈ fields, ∃ v, Value.lookup? entries f.name = some v ∧
      Rewrites options m m₀ f.type (address + f.offset) v) :
    accesses.fieldAccesses options m₀ fields address entries =
      ((Layout.stops.fieldStops fields address).filterMap (Stop.rewritten? m)).map
        Access.store := by
  induction fields with
  | nil => rfl
  | cons f rest ih =>
    rw [List.forall_mem_cons] at each
    obtain ⟨v, hv, hrewrites⟩ := each.1
    rw [fieldAccesses_cons hv, hrewrites.plan, ih each.2, Layout.stops.fieldStops,
      List.filterMap_append, List.map_append]
    rfl

/-- The items that were read for a collection, and the plan for them. -/
theorem accessesOfEach_eq {element : Layout} {stride count : Nat} {items : List Value}
    (h : readEach (read options m element) stride count address = .ok items)
    (each : ∀ v ∈ items, ∀ address, read options m element address = .ok v →
      Rewrites options m m₀ element address v) :
    items.length = count ∧ (∀ v ∈ items, Fits options element v) ∧
      accessesOfEach (accesses options m₀ element) stride items address =
        ((List.range count).flatMap fun i : Nat =>
          rewritten m element (address + i * stride)).map Access.store := by
  induction count generalizing address items with
  | zero =>
    cases h
    exact ⟨rfl, nofun, rfl⟩
  | succ count ih =>
    obtain ⟨v, hv, h⟩ := exists_of_bind_eq_ok h
    obtain ⟨rest, hrest, h⟩ := exists_of_bind_eq_ok h
    cases h
    rw [List.forall_mem_cons] at each
    have hfirst := each.1 address hv
    obtain ⟨hlen, hfits, hplan⟩ := ih hrest each.2
    refine ⟨by rw [List.length_cons, hlen], List.forall_mem_cons.mpr ⟨hfirst.fits, hfits⟩, ?_⟩
    rw [accessesOfEach, hfirst.plan, hplan, List.range_succ_eq_map, List.flatMap_cons,
      List.flatMap_map, List.map_append]
    simp only [Layout.address_succ, Int.natCast_zero, Int.zero_mul, Int.add_zero]

/-- **What was read fits, and writing it puts back what is there.** -/
theorem rewritten_of_read (ho : HasUnmarkedEncodings options) (hm : m.fault = none) {l : Layout}
    (hp : l.isPointerFree = true) (hn : l.hasDistinctNames = true)
    (h : read options m l address = .ok v) (hv : v.hasNaN = false) :
    Rewrites options m m₀ l address v := by
  induction l generalizing address v with
  | integer kind =>
    obtain ⟨n, hn, h⟩ := exists_of_bind_eq_ok h
    cases h
    obtain ⟨hlt, hbytes⟩ := slice_of_loadNumber ⟨address, kind.width⟩ hm hn
    refine .number ?_ rfl hbytes
    rw [leafBytes?, wrapped_integerValue kind hlt]
  | float kind =>
    obtain ⟨n, hn, h⟩ := exists_of_bind_eq_ok h
    cases h
    obtain ⟨hlt, hbytes⟩ := slice_of_loadNumber ⟨address, kind.width⟩ hm hn
    refine .number ?_ rfl hbytes
    rw [leafBytes?, numberCode?, floatCode?_floatValue kind hlt hv]
    rfl
  | rawAddress width =>
    obtain ⟨n, hn, h⟩ := exists_of_bind_eq_ok h
    cases h
    obtain ⟨hlt, hbytes⟩ := slice_of_loadNumber ⟨address, width.bytes⟩ hm hn
    refine .number ?_ rfl hbytes
    rw [leafBytes?, wrapped_natCast hlt]
  | pointer => simp at hp
  | text length =>
    obtain ⟨data, hdata, h⟩ := exists_of_bind_eq_ok h
    obtain ⟨t, ht, h⟩ := exists_of_bind_eq_ok h
    cases h
    exact .text .narrow ho hm (Nat.one_dvd _) hdata ht rfl rfl
  | wideText length =>
    obtain ⟨data, hdata, h⟩ := exists_of_bind_eq_ok h
    obtain ⟨t, ht, h⟩ := exists_of_bind_eq_ok h
    cases h
    exact .text .wide ho hm (Nat.dvd_mul_left _ _) hdata ht rfl rfl
  | struct fields ih =>
    rw [Layout.isPointerFree_struct] at hp
    rw [Layout.hasDistinctNames, Layout.everyPart_struct, decide_eq_true_eq] at hn
    obtain ⟨entries, hentries, h⟩ := exists_of_bind_eq_ok h
    have hnames := map_name_of_readFields hentries
    have hlookup := lookup?_of_readFields hn.1 hentries
    rw [Value.ofEntries_of_nodup (by rw [hnames]; exact hn.1)] at h
    cases h
    rw [Value.hasNaN, Value.entriesHaveNaN_eq_false_iff] at hv
    have each : ∀ f ∈ fields, ∃ v, Value.lookup? entries f.name = some v ∧
        Rewrites options m m₀ f.type (address + f.offset) v := by
      intro f hf
      obtain ⟨v, hlook, hread⟩ := hlookup f hf
      obtain ⟨e, he, rfl⟩ := Value.exists_mem_of_lookup? hlook
      exact ⟨e.value, hlook, ih f hf (hp f hf) (hn.2 f hf) hread (hv e he)⟩
    refine ⟨.struct (fun f hf => ?_) (fun f hf v hlook => ?_), fieldAccesses_eq each⟩
    · obtain ⟨v, hlook, -⟩ := each f hf
      exact ⟨v, hlook⟩
    · obtain ⟨w, hlook', hrewrites⟩ := each f hf
      cases hlook.symm.trans hlook'
      exact hrewrites.fits
  | collection element count ih =>
    rw [Layout.isPointerFree_collection] at hp
    rw [Layout.hasDistinctNames, Layout.everyPart_collection] at hn
    obtain ⟨-, hcount, h⟩ := exists_of_bind_eq_ok h
    obtain ⟨stride, hstride, h⟩ := exists_of_bind_eq_ok h
    obtain rfl := Layout.size_eq_of_size? hstride
    obtain ⟨items, hitems, h⟩ := exists_of_bind_eq_ok h
    cases h
    rw [Value.hasNaN, Value.itemsHaveNaN_eq_false_iff] at hv
    obtain ⟨rfl, hfits, hplan⟩ := accessesOfEach_eq hitems fun v hmem address hread =>
      ih hp hn.2 hread (hv v hmem)
    refine ⟨.collection hfits, hplan.trans ?_⟩
    rw [rewritten, Layout.stops, List.filterMap_cons_none rfl, List.filterMap_flatMap]
    rfl
  | foreign w => cases h

end Rewrites

/-! ### Stops of leaves -/

theorem mem_fieldStops {fields : List (Field Layout)} {address : Int} {stop : Stop} :
    stop ∈ Layout.stops.fieldStops fields address ↔
      ∃ f ∈ fields, stop ∈ f.type.stops (address + f.offset) := by
  induction fields with
  | nil => simp [Layout.stops.fieldStops]
  | cons f rest ih => simp [Layout.stops.fieldStops, ih]

/-- Every stop but a count is that of a leaf. -/
theorem exists_leaf_of_mem_stops {p : Layout → Bool} {l : Layout} (h : l.everyPart p = true)
    (hp : l.isPointerFree = true) {address : Int} {stop : Stop} (hs : stop ∈ l.stops address) :
    (∃ n, stop = .count n) ∨
      ∃ leaf a, p leaf = true ∧ leaf.isLeaf = true ∧ leaf.stops a = [stop] := by
  induction l generalizing address with
  | pointer => simp at hp
  | struct fields ih =>
    rw [Layout.everyPart_struct] at h
    rw [Layout.isPointerFree_struct] at hp
    obtain ⟨f, hf, hs⟩ := mem_fieldStops.mp hs
    exact ih f hf (h.2 f hf) (hp f hf) hs
  | collection element count ih =>
    rw [Layout.everyPart_collection] at h
    rw [Layout.isPointerFree_collection] at hp
    rcases List.mem_cons.mp hs with rfl | hs
    · exact .inl ⟨count, rfl⟩
    · obtain ⟨i, -, hs⟩ := List.mem_flatMap.mp hs
      exact ih h.2 hp hs
  | foreign w => cases hs
  | _ =>
    obtain rfl := List.mem_singleton.mp hs
    exact .inr ⟨_, address, h, rfl, rfl⟩

/-- The slot of a number is short. -/
theorem length_le_of_number_mem_stops {l : Layout} (hp : l.isPointerFree = true) {address : Int}
    {slot : Slot} (hs : .number slot ∈ l.stops address) : slot.length ≤ 8 := by
  rcases exists_leaf_of_mem_stops hp hp hs with ⟨n, h⟩ | ⟨leaf, a, -, hleaf, hstops⟩
  · cases h
  · cases leaf with
    | integer kind =>
      cases hstops
      show kind.width ≤ 8
      cases kind <;> decide
    | float kind =>
      cases hstops
      show kind.width ≤ 8
      cases kind <;> decide
    | rawAddress width =>
      cases hstops
      show width.bytes ≤ 8
      cases width <;> decide
    | text | wideText => cases hstops
    | _ => cases hleaf

/-- The slot of a text has room for whole units. -/
theorem unit_dvd_of_text_mem_stops {l : Layout} (hp : l.isPointerFree = true) {address : Int}
    {kind : TextKind} {slot : Slot} (hs : .text kind slot ∈ l.stops address) :
    kind.unit ∣ slot.length := by
  rcases exists_leaf_of_mem_stops hp hp hs with ⟨n, h⟩ | ⟨leaf, a, -, hleaf, hstops⟩
  · cases h
  · cases leaf with
    | text length =>
      cases hstops
      exact Nat.one_dvd length
    | wideText length =>
      cases hstops
      exact Nat.dvd_mul_left 2 length
    | integer | float | rawAddress => cases hstops
    | _ => cases hleaf

theorem text_not_mem_stops {l : Layout} (ht : l.isTextFree = true) (hp : l.isPointerFree = true)
    (address : Int) (kind : TextKind) (slot : Slot) : .text kind slot ∉ l.stops address := by
  intro hs
  rcases exists_leaf_of_mem_stops ht hp hs with ⟨n, h⟩ | ⟨leaf, a, hfree, hleaf, hstops⟩
  · cases h
  · cases leaf with
    | text | wideText => cases hfree
    | integer | float | rawAddress => cases hstops
    | _ => cases hleaf

/-! ### Reading again -/

/-- What reading makes of the memory at the stop is the same for two memories, each read with
options of its own. -/
def Stop.ReadAlike [Host] (options options' : Options) (m m' : Memory) : Stop → Prop
  | count _ => True
  | number slot => m'.loadNumber options'.byteOrder slot.address slot.length =
      m.loadNumber options.byteOrder slot.address slot.length
  | text kind slot =>
    (m'.load slot.address slot.length >>= fun data =>
        decodeText (kind.encoding options') slot.address (kind.cut data)) =
      m.load slot.address slot.length >>= fun data =>
        decodeText (kind.encoding options) slot.address (kind.cut data)

/-- **Reading looks at the stops alone.** -/
theorem read_of_readAlike [Host] {options' : Options} {l : Layout} {address : Int}
    (h : ∀ stop ∈ l.stops address, stop.ReadAlike options options' m m') :
    read options' m' l address = read options m l address := by
  induction l generalizing address with
  | integer | float | rawAddress | pointer =>
    have hload := h _ List.mem_cons_self
    rw [read, read]
    exact congrArg (· >>= _) hload
  | text length | wideText length =>
    have htext := h _ List.mem_cons_self
    simp only [Stop.ReadAlike, TextKind.cut, TextKind.encoding] at htext
    rw [read, read, ← bind_assoc, ← bind_assoc, htext]
  | struct fields ih =>
    have hfields : read.readFields options' m' fields address =
        read.readFields options m fields address := by
      refine readFields_congr fun f hf => ?_
      exact ih f hf fun stop hs => h stop (mem_fieldStops.mpr ⟨f, hf, hs⟩)
    rw [read, read, hfields]
  | collection element count ih =>
    have hitems : readEach (read options' m' element) element.size count address =
        readEach (read options m element) element.size count address := by
      refine readEach_congr fun i hi => ih fun stop hs => h stop ?_
      exact List.mem_cons_of_mem _ (List.mem_flatMap.mpr ⟨i, List.mem_range.mpr hi, hs⟩)
    rw [read, read]
    cases hsize : element.size? with
    | error e => rfl
    | ok stride =>
      obtain rfl := Layout.size_eq_of_size? hsize
      simp only [bind, Except.bind, hitems]
  | foreign w => rfl

/-- What reading takes from the memory at the stop is the same in both memories: of a text it takes
no more than what stands in front of its end. -/
def Stop.SeenAlike (m m' : Memory) : Stop → Prop
  | count _ => True
  | number slot => m'.load slot.address slot.length = m.load slot.address slot.length
  | text kind slot => ∃ data data', m.load slot.address slot.length = .ok data ∧
      m'.load slot.address slot.length = .ok data' ∧ kind.cut data' = kind.cut data

theorem read_of_seenAlike [Host] {l : Layout} {address : Int}
    (h : ∀ stop ∈ l.stops address, stop.SeenAlike m m') :
    read options m' l address = read options m l address := by
  refine read_of_readAlike fun stop hstop => ?_
  have hseen := h stop hstop
  cases stop with
  | count n => trivial
  | number slot =>
    rw [Stop.SeenAlike] at hseen
    rw [Stop.ReadAlike, Memory.loadNumber, hseen, Memory.loadNumber]
  | text kind slot =>
    obtain ⟨data, data', hdata, hdata', hcut⟩ := hseen
    rw [Stop.ReadAlike, hdata, hdata']
    simp only [bind, Except.bind, hcut]

/-! ### Putting back what is there -/

section PuttingBack

variable {l : Layout} {address : Int}

/-- Where reading ended well, all slots lie in memory. -/
theorem liesIn_of_read [Host] (hg : l.isGenuine = true) (hm : m.fault = none) {v : Value}
    (h : read options m l address = .ok v) {stop : Stop} (hs : stop ∈ l.stops address)
    {slot : Slot} (hslot : stop.slot? = some slot) : slot.LiesIn m := by
  refine Decidable.byContradiction fun hout => ?_
  have hnone : failure? (read options m l address) = none := failure?_eq_none_iff.mpr ⟨v, h⟩
  rw [failure?_read hg, List.findSome?_eq_none_iff] at hnone
  have hfault := hnone stop hs
  rw [Stop.fault?_of_not_liesIn hm hslot hout] at hfault
  split at hfault <;> cases hfault

theorem mem_rewritten {s : Store} :
    s ∈ rewritten m l address ↔ ∃ stop ∈ l.stops address, stop.rewritten? m = some s :=
  List.mem_filterMap

/-- Putting the bytes of a slot into that slot changes nothing. -/
theorem replace_slice {slot : Slot} (h : slot.LiesIn m) :
    m.replace slot.address (m.slice slot.address slot.length) = m := by
  have hlen := Memory.length_slice_of_liesIn h
  rw [Memory.replace, hlen, Memory.slice, List.append_assoc, ← List.drop_drop,
    List.take_append_drop, List.take_append_drop]

/-- Stores that put back what is there. -/
theorem storeAll_eq_self {stores : List Store}
    (h : ∀ s ∈ stores, m.replace s.address s.bytes = m) : storeAll m stores = m := by
  induction stores with
  | nil => rfl
  | cons s rest ih =>
    rw [List.forall_mem_cons] at h
    rw [storeAll, List.foldl_cons, h.1]
    exact ih h.2

/-- **Without texts** every store puts bytes over the same bytes. -/
theorem performAll_rewritten_of_isTextFree [Host] (hp : l.isPointerFree = true)
    (ht : l.isTextFree = true) (hm : m.IsWritable)
    (hin : ∀ stop ∈ l.stops address, ∀ slot, stop.slot? = some slot → slot.LiesIn m) :
    performAll (rewritten m l address) m = (.ok (), m) := by
  have hsame : ∀ s ∈ rewritten m l address,
      s.fault? m = none ∧ m.replace s.address s.bytes = m := by
    intro s hs
    obtain ⟨stop, hstop, hs⟩ := mem_rewritten.mp hs
    cases stop with
    | count n => cases hs
    | number slot =>
      cases hs
      have hlies := hin _ hstop slot rfl
      have hlen := Memory.length_slice_of_liesIn hlies
      have hshort := length_le_of_number_mem_stops hp hstop
      have hpossible : Store.IsPossible m ⟨slot.address, m.slice slot.address slot.length⟩ :=
        ⟨fillingFault?_of_le (by rw [hlen]; exact hshort), by rw [Store.slot, hlen]; exact hlies⟩
      exact ⟨hpossible.fault? hm, replace_slice hlies⟩
    | text kind slot => exact absurd hstop (text_not_mem_stops ht hp address kind slot)
  rw [performAll_of_forall fun s hs => (hsame s hs).1, storeAll_eq_self fun s hs => (hsame s hs).2]

/-- **At or behind the first NUL** of one of the texts of a layout. -/
def BehindNul (m : Memory) (l : Layout) (address x : Int) : Prop :=
  ∃ kind slot, .text kind slot ∈ l.stops address ∧ kind.BehindNul m slot x

/-- The byte of a slot that has the bytes of a store. -/
theorem byteAt?_of_lies {s : Store} (hm : m.fault = none) (h : s.Lies m) {k : Nat}
    (hk : k < s.bytes.length) : m.byteAt? (s.address + k) = s.bytes[k]? := by
  obtain ⟨hin, hbytes⟩ : s.slot.LiesIn m ∧ s.bytes = m.slice s.address s.bytes.length :=
    eq_slice_of_load hm h
  exact (getElem?_slice_of_liesIn hin hk).symm.trans (congrArg (·[k]?) hbytes.symm)

/-- **What becomes of a memory** in which all that was read has been put back. -/
structure PutBack (m m' : Memory) (l : Layout) (address : Int) : Prop where
  frame : Memory.SameFrame m m'
  behind : ∀ x, BehindNul m l address x → m'.byteAt? x = some 0
  other : ∀ x, ¬BehindNul m l address x → m'.byteAt? x = m.byteAt? x

theorem exists_of_contains {slot : Slot} {x : Int} (h : slot.Contains x) :
    ∃ k < slot.length, x = slot.address + (k : Nat) := by
  obtain ⟨hlow, hhigh⟩ := h
  exact ⟨(x - slot.address).toNat, by omega, by omega⟩

section Apart

variable (hp : l.isPointerFree = true)
  (hin : ∀ stop ∈ l.stops address, ∀ slot, stop.slot? = some slot → slot.LiesIn m)

include hp hin

/-- The slot of a text stays as long as it is. -/
theorem length_blanked_slice {kind : TextKind} {slot : Slot}
    (hstop : .text kind slot ∈ l.stops address) :
    (kind.blanked (m.slice slot.address slot.length)).length = slot.length := by
  have hlen := Memory.length_slice_of_liesIn (hin _ hstop slot rfl)
  have hdvd := unit_dvd_of_text_mem_stops hp hstop
  rw [TextKind.length_blanked (hlen.symm ▸ hdvd), hlen]

/-- What was read at a stop is put back into its slot. -/
theorem slot_of_rewritten? {stop : Stop} (hstop : stop ∈ l.stops address) :
    (stop.rewritten? m).map Store.slot = stop.slot? := by
  cases stop with
  | count n => rfl
  | number slot =>
    have hlen := Memory.length_slice_of_liesIn (hin _ hstop slot rfl)
    simp only [Stop.rewritten?, Option.map_some, Store.slot, hlen, Stop.slot?]
  | text kind slot =>
    simp only [Stop.rewritten?, Option.map_some, Store.slot, length_blanked_slice hp hin hstop,
      Stop.slot?]

theorem map_slot_rewritten : (rewritten m l address).map Store.slot = l.slots address := by
  have hrow : ∀ stops : List Stop,
      (∀ stop ∈ stops, (stop.rewritten? m).map Store.slot = stop.slot?) →
        (stops.filterMap (Stop.rewritten? m)).map Store.slot = stops.filterMap Stop.slot? := by
    intro stops h
    induction stops with
    | nil => rfl
    | cons stop rest ih =>
      rw [List.forall_mem_cons] at h
      rw [List.filterMap_cons, List.filterMap_cons, ← h.1]
      cases stop.rewritten? m with
      | none => exact ih h.2
      | some s => exact congrArg (s.slot :: ·) (ih h.2)
  rw [rewritten, ← Layout.slots_stops]
  exact hrow _ fun stop hstop => slot_of_rewritten? hp hin hstop

section Lies

variable (hm : m'.fault = none) (hlies : ∀ s ∈ rewritten m l address, s.Lies m')

include hm hlies

omit hp in
/-- Where all has been put back, a number has the bytes that it had. -/
theorem byteAt?_of_number {slot : Slot} (hstop : .number slot ∈ l.stops address) {k : Nat}
    (hk : k < slot.length) : m'.byteAt? (slot.address + k) = m.byteAt? (slot.address + k) := by
  have hslot := hin _ hstop slot rfl
  have hlen := Memory.length_slice_of_liesIn hslot
  have hbyte := byteAt?_of_lies hm (hlies _ (mem_rewritten.mpr ⟨_, hstop, rfl⟩)) (hlen.symm ▸ hk)
  exact hbyte.trans (getElem?_slice_of_liesIn hslot hk)

/-- Where all has been put back, a text has its bytes up to its end, and zeros behind them. -/
theorem byteAt?_of_text {kind : TextKind} {slot : Slot} (hstop : .text kind slot ∈ l.stops address)
    {k : Nat} (hk : k < slot.length) :
    (kind.BehindNul m slot (slot.address + k) → m'.byteAt? (slot.address + k) = some 0) ∧
    (¬kind.BehindNul m slot (slot.address + k) →
      m'.byteAt? (slot.address + k) = m.byteAt? (slot.address + k)) := by
  have hslot := hin _ hstop slot rfl
  have hlen := length_blanked_slice hp hin hstop
  have hbyte := byteAt?_of_lies hm (hlies _ (mem_rewritten.mpr ⟨_, hstop, rfl⟩)) (hlen.symm ▸ hk)
  obtain ⟨hbehind, hother⟩ :=
    getElem?_blanked_slice hslot (unit_dvd_of_text_mem_stops hp hstop) hk
  exact ⟨fun h => hbyte.trans (hbehind h), fun h => hbyte.trans (hother h)⟩

omit hm in
/-- Where all has been put back, every stop is seen as before. -/
theorem seenAlike_of_lies (hm₀ : m.fault = none) {stop : Stop} (hstop : stop ∈ l.stops address) :
    stop.SeenAlike m m' := by
  cases stop with
  | count n => trivial
  | number slot =>
    have hslot := hin _ hstop slot rfl
    have hload : m'.load slot.address (m.slice slot.address slot.length).length =
        .ok (m.slice slot.address slot.length) := hlies _ (mem_rewritten.mpr ⟨_, hstop, rfl⟩)
    rw [Memory.length_slice_of_liesIn hslot] at hload
    exact hload.trans (Memory.load_of_liesIn hm₀ hslot).symm
  | text kind slot =>
    have hslot := hin _ hstop slot rfl
    have hdvd : kind.unit ∣ (m.slice slot.address slot.length).length :=
      (Memory.length_slice_of_liesIn hslot).symm ▸ unit_dvd_of_text_mem_stops hp hstop
    have hload : m'.load slot.address (kind.blanked (m.slice slot.address slot.length)).length =
        .ok (kind.blanked (m.slice slot.address slot.length)) :=
      hlies _ (mem_rewritten.mpr ⟨_, hstop, rfl⟩)
    rw [length_blanked_slice hp hin hstop] at hload
    exact ⟨_, _, Memory.load_of_liesIn hm₀ hslot, hload, TextKind.cut_blanked hdvd⟩

end Lies

/-- **With texts** all stores that put back what was read are done, if the slots lie apart. -/
theorem performAll_rewritten [Host] (hm : m.IsWritable) (hroom : m.bytes.length < Host.room)
    (hdisjoint : (l.slots address).Pairwise Slot.Disjoint) :
    ∃ m', performAll (rewritten m l address) m = (.ok (), m') ∧ PutBack m m' l address ∧
      ∀ stop ∈ l.stops address, stop.SeenAlike m m' := by
  have hslots := map_slot_rewritten hp hin
  have hfault : ∀ s ∈ rewritten m l address, s.fault? m = none := by
    intro s hs
    obtain ⟨stop, hstop, hsome⟩ := mem_rewritten.mp hs
    have hslot := slot_of_rewritten? hp hin hstop
    rw [hsome, Option.map_some] at hslot
    exact (isPossible_of_liesIn hroom (hin stop hstop _ hslot.symm)).fault? hm
  have hframe := sameFrame_storeAll hfault
  have hm' : (storeAll m (rewritten m l address)).fault = none := hframe.fault.trans hm.fault
  have hlies : ∀ s ∈ rewritten m l address, s.Lies (storeAll m (rewritten m l address)) :=
    lies_storeAll hm.fault hfault (by rw [hslots]; exact hdisjoint)
  refine ⟨storeAll m (rewritten m l address), performAll_of_forall hfault, ⟨hframe, ?_, ?_⟩,
    fun stop hstop => seenAlike_of_lies hp hin hlies hm.fault hstop⟩
  · rintro x ⟨kind, slot, hstop, hbehind⟩
    obtain ⟨k, hk, rfl⟩ := exists_of_contains hbehind.1
    exact (byteAt?_of_text hp hin hm' hlies hstop hk).1 hbehind
  · intro x hx
    by_cases hout : ∀ s ∈ rewritten m l address, ¬s.slot.Contains x
    · exact byteAt?_storeAll hfault hout
    · -- The address is in the slot of some store, and that is the slot of a stop.
      obtain ⟨s, hs, hcontains⟩ : ∃ s ∈ rewritten m l address, s.slot.Contains x := by
        simpa using hout
      obtain ⟨stop, hstop, hsome⟩ := mem_rewritten.mp hs
      have hslot := slot_of_rewritten? hp hin hstop
      rw [hsome, Option.map_some] at hslot
      cases stop with
      | count n => cases hsome
      | number slot =>
        rw [Option.some.inj hslot] at hcontains
        obtain ⟨k, hk, rfl⟩ := exists_of_contains hcontains
        exact byteAt?_of_number hin hm' hlies hstop hk
      | text kind slot =>
        rw [Option.some.inj hslot] at hcontains
        obtain ⟨k, hk, rfl⟩ := exists_of_contains hcontains
        exact (byteAt?_of_text hp hin hm' hlies hstop hk).2 fun hbehind =>
          hx ⟨kind, slot, hstop, hbehind⟩

end Apart

end PuttingBack

/-- **Writing back what was read.** Where there is no text in the layout, this changes no byte, even
if the slots lie one over the other. If they lie apart, texts or not, it changes no byte but those
at or behind the first NUL of a text, which become zero, and the same value is read again.

For this the memory is such as can be made: no memory takes up all the room there is. -/
theorem write_readAt [Host] {l : Layout} (hg : l.isGenuine = true) (hp : l.isPointerFree = true)
    (hn : l.hasDistinctNames = true) (ho : HasUnmarkedEncodings options) (hm : m.IsWritable)
    {at_ : Value} {address : Nat} (hat : at_.location = .ok address) {v : Value}
    (h : readAt options m l at_ = .ok v) (hv : v.hasNaN = false) :
    (l.isTextFree = true → write options l at_ v m = (.ok (), m)) ∧
    (m.bytes.length < Host.room → (l.slots address).Pairwise Slot.Disjoint →
      ∃ m', write options l at_ v m = (.ok (), m') ∧ PutBack m m' l address ∧
        readAt options m' l at_ = .ok v) := by
  have hread (m : Memory) : readAt options m l at_ = read options m l address := by
    rw [readAt, hat]
    rfl
  rw [hread] at h
  have hrewrites : Rewrites options m m l address v := rewritten_of_read ho hm.fault hp hn h hv
  have hin : ∀ stop ∈ l.stops address, ∀ slot, stop.slot? = some slot → slot.LiesIn m :=
    fun stop hstop slot hslot => liesIn_of_read hg hm.fault h hstop hslot
  have hwrite : write options l at_ v m = performAll (rewritten m l address) m := by
    have hundisturbed : Undisturbed m (accesses options m l address v) :=
      .of_followed_eq_nil (by rw [hrewrites.plan, followed_map_store])
    rw [write_eq_performAll hg (check_eq_ok_iff.mpr hrewrites.fits) hat hundisturbed,
      hrewrites.plan, stores_map_store]
  rw [hwrite]
  refine ⟨fun ht => performAll_rewritten_of_isTextFree hp ht hm hin, fun hroom hdisjoint => ?_⟩
  obtain ⟨m', hperform, hback, hseen⟩ := performAll_rewritten hp hin hm hroom hdisjoint
  exact ⟨m', hperform, hback, by rw [hread, read_of_seenAlike hseen, h]⟩

set_option maxRecDepth 4000 in
/-- Two numbers, one over the other, stay as they are; behind a short text the slot is cleared. -/
theorem write_readAt_overlap_and_text :
    (let l := Layout.struct [⟨0, "word", .integer .uint32⟩, ⟨1, "half", .integer .uint16⟩]
      let m : Memory := { bytes := [1, 2, 3, 4], base := 16 }
      write {} l (.int 16) (.record [⟨"word", .int 67305985⟩, ⟨"half", .int 770⟩]) m =
        (.ok (), m)) ∧
    (let l := Layout.struct [⟨0, "n", .integer .uint8⟩, ⟨1, "name", .text 4⟩]
      let m : Memory := { bytes := [9, 97, 0, 98, 0], base := 16 }
      let v := Value.record [⟨"n", .int 9⟩, ⟨"name", .text ['a']⟩]
      ∃ m', write {} l (.int 16) v m = (.ok (), m') ∧ PutBack m m' l 16 ∧
        readAt {} m' l (.int 16) = .ok v) := by
  have ho : HasUnmarkedEncodings {} := hasUnmarkedEncodings_of_mem fun kind => by
    cases kind with
    | narrow => exact ⟨"utf-8", .utf8, by simp [unmarkedNames], rfl⟩
    | wide => exact ⟨"utf-16-le", .utf16 .little, by simp [unmarkedNames], rfl⟩
  have hat : (Value.int 16).location = .ok 16 := rfl
  refine ⟨(write_readAt rfl rfl (by decide) ho ⟨rfl, rfl⟩ hat rfl rfl).1 rfl, ?_⟩
  exact (write_readAt rfl rfl (by decide) ho ⟨rfl, rfl⟩ hat rfl rfl).2 (by decide) (by decide)

end Codec

end TypedMemory
