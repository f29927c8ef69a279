import Mathlib.Data.List.Pairwise
import TypedMemory.Proofs.Codec.Rewriting

/-!
# The other byte order

With the other byte order everything is as before, but for the bytes of numbers, which are the
other way round. The same values pass the check (`TypedMemory.Codec.check_flipped`). The stores of
a write are the same, one after another, with the bytes of numbers and addresses reversed and
those of texts as they were (`TypedMemory.Codec.Fits.mirrored`); and since a store fails by its
place and its length alone, both writes break off at the same one. Reading sees no difference
where the slots of all numbers have been reversed in memory
(`TypedMemory.Codec.read_flipped`).

What tells numbers from texts are the stops of the layout, which are those of reading. So a text
that was stored by the byte order, or a number that was not, would have no place in
`TypedMemory.Codec.Mirrored`.
-/

namespace TypedMemory

/-! ### Numbers in the other order -/

/-- The other byte order. -/
def ByteOrder.flipped : ByteOrder → ByteOrder
  | little => big
  | big => little

theorem ByteOrder.store_flipped (order : ByteOrder) (width n : Nat) :
    order.flipped.store width n = (order.store width n).reverse := by
  cases order with
  | little => rfl
  | big => exact (List.reverse_reverse _).symm

theorem ByteOrder.load_flipped (order : ByteOrder) (bytes : Bytes) :
    order.flipped.load bytes.reverse = order.load bytes := by
  cases order with
  | little => rw [flipped, load, load, List.reverse_reverse]
  | big => rfl

/-- The options with the other byte order. -/
def Options.flipped (o : Options) : Options := { o with byteOrder := o.byteOrder.flipped }

namespace Codec

open Layout (stops)

variable [Host] {options : Options}

/-! ### Checking -/

omit [Host] in
/-- Whether a number has a code in a slot does not hang on how the code is stored. -/
theorem floatBytes_map (order order' : ByteOrder) (kind : FloatKind) (x : Binary64) :
    ((floatBytes order kind x).map fun _ => ()) = (floatBytes order' kind x).map fun _ => () := by
  cases kind with
  | fp64 => rfl
  | fp32 => cases h : x.toSingle? <;> simp [floatBytes, h, Except.map, Error.fail]

omit [Host] in
theorem integerAsFloatBytes_map (order order' : ByteOrder) (kind : FloatKind) (n : Int) :
    ((integerAsFloatBytes order kind n).map fun _ => ()) =
      (integerAsFloatBytes order' kind n).map fun _ => () := by
  cases hn : Binary64.ofInt? n with
  | none => simp [integerAsFloatBytes, hn, Except.map, Error.fail]
  | some x =>
    cases kind with
    | fp64 => simp [integerAsFloatBytes, hn, Except.map]
    | fp32 => cases h : x.toSingle? <;> simp [integerAsFloatBytes, hn, h, Except.map, Error.fail]

/-- **The check is the same**, and so is its failure. -/
theorem check_flipped (l : Layout) (v : Value) : check options.flipped l v = check options l v := by
  induction l generalizing v with
  | float kind =>
    cases v with
    | int n => exact integerAsFloatBytes_map _ _ kind n
    | float x tag => exact floatBytes_map _ _ kind x
    | _ => rfl
  | pointer width inner ih => exact ih v
  | struct fields ih =>
    cases v with
    | record entries =>
      change check.checkFields options.flipped fields entries =
        check.checkFields options fields entries
      induction fields with
      | nil => rfl
      | cons f rest ih' =>
        rw [List.forall_mem_cons] at ih
        rw [check.checkFields, check.checkFields, ih' ih.2]
        cases Value.lookup? entries f.name with
        | none => rfl
        | some v => simp only [ih.1]
    | _ => rfl
  | collection element count ih =>
    cases v with
    | array items => simp only [check, funext ih]
    | _ => rfl
  | _ => cases v <;> rfl

/-! ### Writing -/

/-- **Two rows of stores mirror each other** along the stops of a layout: there is one of each row
for every leaf, in its slot, and the bytes of a number are the other way round in the second row,
while those of a text are the same. -/
inductive Mirrored : List Stop → List Store → List Store → Prop
  | nil : Mirrored [] [] []
  | count {n : Nat} {stops : List Stop} {ss ts : List Store} (h : Mirrored stops ss ts) :
      Mirrored (.count n :: stops) ss ts
  | number {address : Int} {bytes : Bytes} {stops : List Stop} {ss ts : List Store}
      (h : Mirrored stops ss ts) :
      Mirrored (.number ⟨address, bytes.length⟩ :: stops) (⟨address, bytes⟩ :: ss)
        (⟨address, bytes.reverse⟩ :: ts)
  | text {kind : TextKind} {address : Int} {bytes : Bytes} {stops : List Stop} {ss ts : List Store}
      (h : Mirrored stops ss ts) :
      Mirrored (.text kind ⟨address, bytes.length⟩ :: stops) (⟨address, bytes⟩ :: ss)
        (⟨address, bytes⟩ :: ts)

namespace Mirrored

variable {stops stops' : List Stop} {ss ts ss' ts' : List Store}

omit [Host] in
theorem append (h : Mirrored stops ss ts) (h' : Mirrored stops' ss' ts') :
    Mirrored (stops ++ stops') (ss ++ ss') (ts ++ ts') := by
  induction h with
  | nil => exact h'
  | count _ ih => exact .count ih
  | number _ ih => exact .number ih
  | text _ ih => exact .text ih

omit [Host] in
/-- The stores go to the same places. -/
theorem map_slot (h : Mirrored stops ss ts) : ts.map Store.slot = ss.map Store.slot := by
  induction h with
  | nil => rfl
  | count _ ih => exact ih
  | number _ ih => simp [Store.slot, ih]
  | text _ ih => rw [List.map_cons, List.map_cons, ih]

end Mirrored

/-- The bytes of a number in the other order are the other way round. -/
theorem mirrored_number {l : Layout} {v : Value} {width code : Nat} {address : Int}
    (hstops : l.stops address = [.number ⟨address, width⟩])
    (h : leafBytes? options l v = some (options.byteOrder.store width code))
    (h' : leafBytes? options.flipped l v = some (options.byteOrder.flipped.store width code))
    (m m' : Memory) : Mirrored (l.stops address) (stores (accesses options m l address v))
      (stores (accesses options.flipped m' l address v)) := by
  rw [accesses_leaf h, accesses_leaf h', ByteOrder.store_flipped, hstops]
  have hlength := ByteOrder.length_store options.byteOrder width code
  generalize options.byteOrder.store width code = bytes at hlength
  subst hlength
  exact .number .nil

theorem mirrored_text {l : Layout} {v : Value} {kind : TextKind} {length : Nat} {address : Int}
    (hstops : l.stops address = [.text kind ⟨address, length⟩]) (hsize : l.size = length)
    {bytes : Bytes} (h : leafBytes? options l v = some bytes)
    (h' : leafBytes? options.flipped l v = some bytes) (m m' : Memory) :
    Mirrored (l.stops address) (stores (accesses options m l address v))
      (stores (accesses options.flipped m' l address v)) := by
  rw [accesses_leaf h, accesses_leaf h', hstops, ← hsize, ← length_of_leafBytes? h]
  exact .text .nil

theorem mirrored_leaf {l : Layout} {v : Value} {bytes : Bytes}
    (h : leafBytes? options l v = some bytes) (m m' : Memory) (address : Int) :
    Mirrored (l.stops address) (stores (accesses options m l address v))
      (stores (accesses options.flipped m' l address v)) := by
  cases l with
  | integer kind =>
    cases v with
    | int n => exact mirrored_number rfl rfl rfl m m'
    | _ => cases h
  | float kind =>
    obtain ⟨code, hcode, rfl⟩ := Option.map_eq_some_iff.mp h
    exact mirrored_number rfl h (Option.map_eq_some_iff.mpr ⟨code, hcode, rfl⟩) m m'
  | rawAddress width =>
    cases v with
    | int n => exact mirrored_number rfl rfl rfl m m'
    | address n => exact mirrored_number rfl rfl rfl m m'
    | _ => cases h
  | text length =>
    cases v with
    | text t => exact mirrored_text rfl rfl h h m m'
    | _ => cases h
  | wideText length =>
    cases v with
    | text t => exact mirrored_text rfl rfl h h m m'
    | _ => cases h
  | _ => cases h

theorem mirrored_fields {fields : List (Field Layout)} {entries : List (Entry Value)}
    {m m' : Memory} (present : ∀ f ∈ fields, ∃ v, Value.lookup? entries f.name = some v)
    (each : ∀ f ∈ fields, ∀ v, Value.lookup? entries f.name = some v → ∀ address,
      Mirrored (f.type.stops address) (stores (accesses options m f.type address v))
        (stores (accesses options.flipped m' f.type address v))) (address : Int) :
    Mirrored (stops.fieldStops fields address)
      (stores (accesses.fieldAccesses options m fields address entries))
      (stores (accesses.fieldAccesses options.flipped m' fields address entries)) := by
  induction fields with
  | nil => exact .nil
  | cons f rest ih =>
    rw [List.forall_mem_cons] at present each
    obtain ⟨v, hv⟩ := present.1
    rw [fieldAccesses_cons hv, fieldAccesses_cons hv, stores_append, stores_append,
      stops.fieldStops]
    exact (each.1 v hv _).append (ih present.2 each.2)

omit [Host] in
theorem mirrored_each {accessesAt accessesAt' : Int → Value → List Access}
    {stopsAt : Int → List Stop} {items : List Value}
    (h : ∀ v ∈ items, ∀ address,
      Mirrored (stopsAt address) (stores (accessesAt address v)) (stores (accessesAt' address v)))
    (stride : Nat) (address : Int) :
    Mirrored ((List.range items.length).flatMap fun i : Nat => stopsAt (address + i * stride))
      (stores (accessesOfEach accessesAt stride items address))
      (stores (accessesOfEach accessesAt' stride items address)) := by
  induction items generalizing address with
  | nil => exact .nil
  | cons v rest ih =>
    rw [List.forall_mem_cons] at h
    rw [accessesOfEach, accessesOfEach, stores_append, stores_append, List.length_cons,
      List.range_succ_eq_map, List.flatMap_cons, List.flatMap_map]
    simp only [Layout.address_succ, Int.natCast_zero, Int.zero_mul, Int.add_zero]
    exact (h.1 address).append (ih h.2 _)

/-- **The stores of a write in the other byte order** mirror those in this one. -/
theorem Fits.mirrored {l : Layout} {v : Value} (h : Fits options l v)
    (hp : l.isPointerFree = true) (m m' : Memory) (address : Int) :
    Mirrored (l.stops address) (stores (accesses options m l address v))
      (stores (accesses options.flipped m' l address v)) := by
  induction h generalizing address with
  | leaf h => exact mirrored_leaf h m m' address
  | pointer => simp at hp
  | struct present _ ih =>
    rw [Layout.isPointerFree_struct] at hp
    exact mirrored_fields present (fun f hf v hv => ih f hf v hv (hp f hf)) address
  | @collection element items _ ih =>
    rw [Layout.isPointerFree_collection] at hp
    exact .count (mirrored_each (fun v hv => ih v hv hp) element.size address)

/-- Whether a store fails hangs on its place and length alone. -/
theorem Store.fault?_eq_of_slot {s t : Store} (h : t.slot = s.slot) (m : Memory) :
    t.fault? m = s.fault? m := by
  obtain ⟨haddress, hlength⟩ := Slot.mk.inj h
  have hnil : t.bytes = [] ↔ s.bytes = [] := by
    rw [← List.length_eq_zero_iff, ← List.length_eq_zero_iff, hlength]
  simp only [fault?, hnil, hlength, haddress]

/-- **Rows of stores to the same places break off at the same one**, with the same failure, or
both go through. -/
theorem performAll_of_map_slot {ss ts : List Store} (h : ts.map Store.slot = ss.map Store.slot)
    (m : Memory) :
    (performAll ss m = (.ok (), storeAll m ss) ∧ performAll ts m = (.ok (), storeAll m ts)) ∨
      ∃ n s t e, ss[n]? = some s ∧ ts[n]? = some t ∧ s.fault? m = some e ∧ t.fault? m = some e ∧
        performAll ss m = (.error e, storeAll m (ss.take n)) ∧
        performAll ts m = (.error e, storeAll m (ts.take n)) := by
  have hfault : ∀ {row row' : List Store}, row'.map Store.slot = row.map Store.slot →
      (∀ s ∈ row, s.fault? m = none) → ∀ t ∈ row', t.fault? m = none := by
    intro row row' hslot hrow t ht
    have hmem : t.slot ∈ row.map Store.slot := hslot ▸ List.mem_map_of_mem ht
    obtain ⟨s, hs, hst⟩ := List.mem_map.mp hmem
    rw [Store.fault?_eq_of_slot hst.symm]
    exact hrow s hs
  rcases forall_or_exists_fault ss m with hall | ⟨before, s, after, e, rfl, hbefore, hs⟩
  · exact .inl ⟨performAll_of_forall hall, performAll_of_forall (hfault h hall)⟩
  -- The other row is cut where this one breaks off, and its stores in front of the cut go through.
  · rw [List.map_append, List.map_cons] at h
    obtain ⟨before', rest, rfl, hbefore', hrest⟩ := List.map_eq_append_iff.mp h
    obtain ⟨t, after', rfl, ht, -⟩ := List.map_eq_cons_iff.mp hrest
    have hlength : before'.length = before.length := by
      simpa using congrArg List.length hbefore'
    have ht' : t.fault? m = some e := (Store.fault?_eq_of_slot ht m).trans hs
    refine .inr ⟨before.length, s, t, e, by simp, by simp [← hlength], hs, ht', ?_, ?_⟩
    · rw [performAll_of_fault hbefore hs, List.take_left]
    · rw [performAll_of_fault (hfault hbefore' hbefore) ht', ← hlength, List.take_left]

end Codec

/-! ### Memory with slots the other way round -/

/-- Disjointness goes both ways. -/
theorem Slot.Disjoint.symm {s t : Slot} (h : s.Disjoint t) : t.Disjoint s :=
  fun x ht hs => h x hs ht

namespace Memory

variable {m : Memory} {s : Slot} {slots : List Slot}

/-- The memory with the bytes of a slot the other way round, if it has them. -/
def mirroredAt (m : Memory) (s : Slot) : Memory :=
  if s.LiesIn m then m.replace s.address (m.slice s.address s.length).reverse else m

/-- **The memory with the bytes of each slot the other way round.** -/
def mirrored (m : Memory) (slots : List Slot) : Memory := slots.foldl mirroredAt m

theorem length_reverse_slice (h : s.LiesIn m) :
    (m.slice s.address s.length).reverse.length = s.length := by
  rw [List.length_reverse, length_slice_of_liesIn h]

theorem replace_nil (m : Memory) (address : Int) : m.replace address [] = m := by
  simp [replace]

theorem sameFrame_mirroredAt (m : Memory) (s : Slot) : SameFrame m (m.mirroredAt s) := by
  rw [mirroredAt]
  split
  · next h =>
    have hlength := length_reverse_slice h
    rcases h with hs | hc
    · rw [hs, List.length_eq_zero_iff] at hlength
      rw [hs, hlength, replace_nil]
      exact .refl m
    · exact sameFrame_replace (by rw [hlength]; exact hc)
  · exact .refl m

theorem byteAt?_mirroredAt {x : Int} (hx : ¬s.Contains x) :
    (m.mirroredAt s).byteAt? x = m.byteAt? x := by
  rw [mirroredAt]
  split
  · next h =>
    have hlength := length_reverse_slice h
    rcases h with hs | hc
    · rw [hs, List.length_eq_zero_iff] at hlength
      rw [hs, hlength, replace_nil]
    · exact byteAt?_replace_of_not_mem (by rw [hlength]; exact hc) (by rw [hlength]; exact hx)
  · rfl

/-- What is loaded from the slot is the other way round; what cannot be loaded still cannot. -/
theorem load_mirroredAt (hm : m.fault = none) :
    (m.mirroredAt s).load s.address s.length =
      (m.load s.address s.length).map List.reverse := by
  rw [mirroredAt]
  split
  · next h =>
    have hlength := length_reverse_slice h
    rw [load_of_liesIn hm h]
    rcases h with hs | hc
    · simp [load, slice, hs, Except.map]
    · have hself : (m.replace s.address (m.slice s.address s.length).reverse).load s.address
          (m.slice s.address s.length).reverse.length =
            .ok (m.slice s.address s.length).reverse :=
        load_replace_self hm (by rw [hlength]; exact hc)
      rwa [hlength] at hself
  · next h =>
    rw [load_of_not_liesIn hm h]
    rfl

theorem load_mirroredAt_of_disjoint {t : Slot} (h : t.Disjoint s) :
    (m.mirroredAt s).load t.address t.length = m.load t.address t.length :=
  load_congr (sameFrame_mirroredAt m s) fun x hx => byteAt?_mirroredAt (h x hx)

/-- What lies apart from all the slots is loaded as before. -/
theorem load_mirrored_of_disjoint {t : Slot} (h : ∀ s ∈ slots, t.Disjoint s) :
    (m.mirrored slots).load t.address t.length = m.load t.address t.length := by
  induction slots generalizing m with
  | nil => rfl
  | cons s rest ih =>
    rw [List.forall_mem_cons] at h
    exact (ih h.2).trans (load_mirroredAt_of_disjoint h.1)

/-- **Where no two slots overlap** each of them is loaded the other way round. -/
theorem load_mirrored (hm : m.fault = none) (h : slots.Pairwise Slot.Disjoint) (hs : s ∈ slots) :
    (m.mirrored slots).load s.address s.length =
      (m.load s.address s.length).map List.reverse := by
  induction slots generalizing m with
  | nil => cases hs
  | cons t rest ih =>
    rw [List.pairwise_cons] at h
    change ((m.mirroredAt t).mirrored rest).load s.address s.length = _
    -- A slot is turned round at its own turn, and no other turn touches it.
    rcases List.mem_cons.mp hs with rfl | hs
    · rw [load_mirrored_of_disjoint h.1, load_mirroredAt hm]
    · rw [ih ((sameFrame_mirroredAt m t).fault.trans hm) h.2 hs,
        load_mirroredAt_of_disjoint (h.1 s hs).symm]

end Memory

/-! ### Reading -/

namespace Codec

open Layout (stops)

/-- The slot of a number or an address at a stop. -/
def Stop.number? : Stop → Option Slot
  | number slot => some slot
  | _ => none

/-- **The slots of the numbers and addresses** of a layout at an address. -/
def numberSlots (l : Layout) (address : Int) : List Slot :=
  (l.stops address).filterMap Stop.number?

theorem loadNumber_flipped {m m' : Memory} {order : ByteOrder} {address : Int} {width : Nat}
    (h : m'.load address width = (m.load address width).map List.reverse) :
    m'.loadNumber order.flipped address width = m.loadNumber order address width := by
  rw [Memory.loadNumber, h, Memory.loadNumber]
  cases m.load address width with
  | error e => rfl
  | ok data => exact congrArg Except.ok (order.load_flipped data)

theorem eq_number_of_number? {stop : Stop} {slot : Slot} (h : stop.number? = some slot) :
    stop = .number slot := by
  cases stop with
  | number s => exact congrArg Stop.number (Option.some.inj h)
  | _ => cases h

/-- The slots at two stops have no byte in common. -/
def Stop.Apart (a b : Stop) : Prop :=
  ∀ s, a.slot? = some s → ∀ t, b.slot? = some t → s.Disjoint t

instance : Std.Symm Stop.Apart where
  symm _ _ h s hs t ht := (h t ht s hs).symm

/-- **Reading in the other byte order** a memory with all numbers the other way round, where the
slots of the layout lie apart, is reading the memory. -/
theorem read_flipped [Host] {options : Options} {m : Memory} {l : Layout} {address : Int}
    (hm : m.fault = none) (h : (l.slots address).Pairwise Slot.Disjoint) :
    read options.flipped (m.mirrored (numberSlots l address)) l address =
      read options m l address := by
  have hstops : (l.stops address).Pairwise Stop.Apart := by
    rwa [← Layout.slots_stops, List.pairwise_filterMap] at h
  have hnumbers : (numberSlots l address).Pairwise Slot.Disjoint := by
    rw [numberSlots, List.pairwise_filterMap]
    refine hstops.imp fun hab s hs t ht => ?_
    rw [eq_number_of_number? hs, eq_number_of_number? ht] at hab
    exact hab s rfl t rfl
  refine read_of_readAlike fun stop hstop => ?_
  cases stop with
  | count n => trivial
  | number slot =>
    exact loadNumber_flipped
      (Memory.load_mirrored hm hnumbers (List.mem_filterMap.mpr ⟨_, hstop, rfl⟩))
  | text kind slot =>
    -- A text lies apart from all numbers, so it is where it was.
    have hload : (m.mirrored (numberSlots l address)).load slot.address slot.length =
        m.load slot.address slot.length := by
      refine Memory.load_mirrored_of_disjoint fun s hs => ?_
      obtain ⟨other, hother, hs⟩ := List.mem_filterMap.mp hs
      rw [eq_number_of_number? hs] at hother
      exact hstops.forall hstop hother (by simp) slot rfl s rfl
    rw [Stop.ReadAlike, hload]
    rfl

/-! ### Both directions -/

/-- **The byte order only mirrors numbers.** For a layout without pointers, whatever the encodings,
the address and the memory: a value passes the check in one byte order as it does in the other, or
fails it with the same failure. If it passes, writing is a row of stores in either order, one for
each leaf and in its slot; those of numbers and addresses have their bytes the other way
round, those of texts are the same; and both rows go through, or break off at the same store with
the same failure. And where no slots of the layout overlap, reading the memory ends as reading in
the other order does when the bytes of every number and address have been turned round. -/
theorem write_readAt_flipped [Host] {options : Options} {l : Layout} (hg : l.isGenuine = true)
    (hp : l.isPointerFree = true) {m : Memory} (hm : m.fault = none) {at_ : Value} {address : Nat}
    (hat : at_.location = .ok address) (v : Value) :
    check options.flipped l v = check options l v ∧
    (check options l v = .ok () →
      let ss := stores (accesses options m l address v)
      let ts := stores (accesses options.flipped m l address v)
      Mirrored (l.stops address) ss ts ∧
        ((write options l at_ v m = (.ok (), storeAll m ss) ∧
            write options.flipped l at_ v m = (.ok (), storeAll m ts)) ∨
          ∃ n s t e, ss[n]? = some s ∧ ts[n]? = some t ∧ s.fault? m = some e ∧ t.fault? m = some e ∧
            write options l at_ v m = (.error e, storeAll m (ss.take n)) ∧
            write options.flipped l at_ v m = (.error e, storeAll m (ts.take n)))) ∧
    ((l.slots address).Pairwise Slot.Disjoint →
      readAt options.flipped (m.mirrored (numberSlots l address)) l at_ =
        readAt options m l at_) := by
  refine ⟨check_flipped l v, fun hc => ?_, fun hslots => ?_⟩
  · have hfits := check_eq_ok_iff.mp hc
    have hmirrored := hfits.mirrored hp m m address
    have hwrite : ∀ o : Options, check o l v = .ok () →
        write o l at_ v m = performAll (stores (accesses o m l address v)) m := fun o ho => by
      obtain ⟨row, hrow, -⟩ := (check_eq_ok_iff.mp ho).fills hp m address
      exact write_eq_performAll hg ho hat (.of_followed_eq_nil (by rw [hrow, followed_map_store]))
    refine ⟨hmirrored, ?_⟩
    rw [hwrite options hc, hwrite options.flipped ((check_flipped l v).trans hc)]
    exact performAll_of_map_slot hmirrored.map_slot m
  · rw [readAt, readAt, hat]
    exact read_flipped hm hslots

/-- A number and a text: only the bytes of the number are turned round. -/
theorem write_readAt_flipped_record :
    let l := Layout.struct [⟨0, "n", .integer .uint16⟩, ⟨2, "t", .text 2⟩]
    let m : Memory := { bytes := [1, 2, 97, 0] }
    let v := Value.record [⟨"t", .text []⟩, ⟨"n", .int 258⟩]
    check {} l v = .ok () ∧ check (Options.flipped {}) l v = .ok () ∧
      Mirrored [.number ⟨0, 2⟩, .text .narrow ⟨2, 2⟩] [⟨0, [2, 1]⟩, ⟨2, [0, 0]⟩]
        [⟨0, [1, 2]⟩, ⟨2, [0, 0]⟩] ∧
      (l.slots 0).Pairwise Slot.Disjoint ∧
      readAt (Options.flipped {}) { bytes := [2, 1, 97, 0] } l (.int 0) =
        readAt {} m l (.int 0) := by
  intro l m v
  have hat : (Value.int 0).location = .ok 0 := rfl
  have hc : check {} l v = .ok () := eq_ok_of_toOption (by decide +kernel)
  have hdisjoint : (l.slots 0).Pairwise Slot.Disjoint := by decide
  obtain ⟨hcheck, hwrite, hread⟩ : check (Options.flipped {}) l v = check {} l v ∧ _ ∧ _ :=
    write_readAt_flipped rfl rfl (m := m) rfl hat v
  exact ⟨hc, hcheck.trans hc, (hwrite hc).1, hdisjoint, hread hdisjoint⟩

end Codec

end TypedMemory
