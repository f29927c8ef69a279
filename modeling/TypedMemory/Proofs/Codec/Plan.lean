import TypedMemory.Proofs.Codec.Stores
import TypedMemory.Proofs.Encoding

/-!
# The plan of a write

Writing goes down a layout and a value, and it reads pointers on the way, between one store
and the next. Still all of it can be **planned** on the memory as it is before the write:
`TypedMemory.Codec.accesses` goes down the same way without changing anything, looks up
every pointer in the memory it was given, and lists the slots it follows and the bytes it
would store, in order.

The plan is what happens (`TypedMemory.Codec.write_eq_performAll`) as long as no store goes
to a pointer that is followed: a pointer that is looked up late is then still what it was in
the beginning. Which stores do harm is asked of the whole plan, and so of pointers behind
pointers too.
-/

namespace TypedMemory.Codec

variable {options : Options}

/-- What writing does to memory, step by step. -/
inductive Access
  /-- Look up the address in a slot. -/
  | follow (slot : Slot)
  /-- Put the bytes of a leaf in their place. -/
  | store (s : Store)

namespace Access

/-- The slot that is looked up. -/
def followed? : Access → Option Slot
  | follow slot => some slot
  | store _ => none

/-- The store that is done. -/
def store? : Access → Option Store
  | follow _ => none
  | store s => some s

end Access

/-- The slots of the pointers that are followed. -/
def followed (accesses : List Access) : List Slot := accesses.filterMap Access.followed?

/-- The stores, in order. -/
def stores (accesses : List Access) : List Store := accesses.filterMap Access.store?

section Lists

variable {as bs : List Access}

@[simp] theorem followed_append : followed (as ++ bs) = followed as ++ followed bs :=
  List.filterMap_append

@[simp] theorem stores_append : stores (as ++ bs) = stores as ++ stores bs :=
  List.filterMap_append

@[simp] theorem followed_follow (slot : Slot) :
    followed (.follow slot :: as) = slot :: followed as := rfl

@[simp] theorem stores_follow (slot : Slot) : stores (.follow slot :: as) = stores as := rfl

@[simp] theorem followed_store (s : Store) : followed (.store s :: as) = followed as := rfl

@[simp] theorem stores_store (s : Store) : stores (.store s :: as) = s :: stores as := rfl

end Lists

/-! ### Planning -/

/-- The accesses for the items, each a stride behind the one before. -/
def accessesOfEach (accessesAt : Int → Value → List Access) (stride : Nat) :
    List Value → Int → List Access
  | [], _ => []
  | v :: rest, address =>
    accessesAt address v ++ accessesOfEach accessesAt stride rest (address + stride)

section Planning

variable [Host]

/-- The one store of a leaf. -/
def leafAccesses (options : Options) (l : Layout) (address : Int) (v : Value) : List Access :=
  ((leafBytes? options l v).map fun bytes => .store ⟨address, bytes⟩).toList

/-- **The accesses for a value at an address**, with all pointers looked up in the given
memory: struct fields by their offsets, the items of an array each a size behind the one
before, and the target of a pointer where the memory has it. -/
def accesses (options : Options) (m : Memory) : Layout → Int → Value → List Access
  | .pointer width inner, address, v =>
    .follow ⟨address, width.bytes⟩ ::
      match m.loadNumber options.byteOrder address width.bytes with
      | .ok target => accesses options m inner target v
      | .error _ => []
  | .struct fields, address, v =>
    match v with
    | .record entries => fieldAccesses fields address entries
    | _ => []
  | .collection element _, address, v =>
    match v with
    | .array items => accessesOfEach (accesses options m element) element.size items address
    | _ => []
  | l, address, v => leafAccesses options l address v
where
  /-- The accesses for what the entries have for each field. -/
  fieldAccesses : List (Field Layout) → Int → List (Entry Value) → List Access
  | [], _, _ => []
  | f :: rest, address, entries =>
    (match Value.lookup? entries f.name with
      | some v => accesses options m f.type (address + f.offset) v
      | none => []) ++ fieldAccesses rest address entries

theorem accesses_leaf {l : Layout} {v : Value} {bytes : Bytes}
    (h : leafBytes? options l v = some bytes) (m : Memory) (address : Int) :
    accesses options m l address v = [.store ⟨address, bytes⟩] := by
  have hl := isLeaf_of_leafBytes? h
  have haccesses : accesses options m l address v = leafAccesses options l address v := by
    cases l <;> first | rfl | cases hl
  rw [haccesses, leafAccesses, h]
  rfl

theorem accesses_pointer {m : Memory} {width : AddressWidth} {address : Int} {data : Bytes}
    (h : m.load address width.bytes = .ok data) (inner : Layout) (v : Value) :
    accesses options m (.pointer width inner) address v =
      .follow ⟨address, width.bytes⟩ ::
        accesses options m inner (options.byteOrder.load data) v := by
  rw [accesses, Memory.loadNumber_of_ok h]

theorem fieldAccesses_cons {m : Memory} {f : Field Layout} {rest : List (Field Layout)}
    {entries : List (Entry Value)} {v : Value} (h : Value.lookup? entries f.name = some v)
    (address : Int) : accesses.fieldAccesses options m (f :: rest) address entries =
      accesses options m f.type (address + f.offset) v ++
        accesses.fieldAccesses options m rest address entries := by
  rw [accesses.fieldAccesses, h]

end Planning

/-! ### Plans that do not harm themselves -/

/-- Every pointer that is followed can be looked up, and nothing is stored over it. -/
structure Undisturbed (m : Memory) (as : List Access) : Prop where
  readable : ∀ t ∈ followed as, ∃ data, m.load t.address t.length = .ok data
  disjoint : ∀ t ∈ followed as, ∀ s ∈ stores as, t.Disjoint s.slot

namespace Undisturbed

variable {m : Memory} {as bs : List Access}

theorem left (h : Undisturbed m (as ++ bs)) : Undisturbed m as where
  readable t ht := h.readable t (by simp [ht])
  disjoint t ht s hs := h.disjoint t (by simp [ht]) s (by simp [hs])

theorem right (h : Undisturbed m (as ++ bs)) : Undisturbed m bs where
  readable t ht := h.readable t (by simp [ht])
  disjoint t ht s hs := h.disjoint t (by simp [ht]) s (by simp [hs])

/-- The first accesses store over nothing that the later ones follow. -/
theorem across (h : Undisturbed m (as ++ bs)) :
    ∀ t ∈ followed bs, ∀ s ∈ stores as, t.Disjoint s.slot :=
  fun t ht s hs => h.disjoint t (by simp [ht]) s (by simp [hs])

theorem tail {a : Access} (h : Undisturbed m (a :: as)) : Undisturbed m as := by
  have hsplit : Undisturbed m ([a] ++ as) := h
  exact hsplit.right

/-- A plan that follows no pointer. -/
theorem of_followed_eq_nil (h : followed as = []) : Undisturbed m as where
  readable t ht := by simp [h] at ht
  disjoint t ht := by simp [h] at ht

end Undisturbed

/-! ### What is planned is what happens -/

/-- Wherever the pointers that are followed are as in the memory of the plan, the update does
the stores of the plan, and nothing else. -/
def Carries [Host] (m : Memory) (as : List Access) (x : Update Unit) : Prop :=
  ∀ m', (∀ t ∈ followed as, m'.load t.address t.length = m.load t.address t.length) →
    x m' = performAll (stores as) m'

section Carries

variable [Host] {m : Memory}

theorem carries_nil : Carries m [] (pure ()) := fun _ _ => rfl

/-- **One plan after another**, where the first stores over nothing that the second
follows. -/
theorem Carries.bind {as bs : List Access} {x y : Update Unit} (hx : Carries m as x)
    (hy : Carries m bs y) (h : ∀ t ∈ followed bs, ∀ s ∈ stores as, t.Disjoint s.slot) :
    Carries m (as ++ bs) (x >>= fun _ => y) := by
  intro m' hm
  simp only [followed_append, List.mem_append] at hm
  rw [stores_append, performAll_append, Effect.bind_apply, Effect.bind_apply,
    hx m' fun t ht => hm t (.inl ht)]
  rcases hp : performAll (stores as) m' with ⟨r, m''⟩
  cases r with
  | error e => rfl
  | ok u =>
    -- What the second plan follows is still as it was.
    refine hy m'' fun t ht => ?_
    have hload := load_performAll_of_disjoint (m := m') (h t ht)
    rw [hp] at hload
    exact hload.trans (hm t (.inr ht))

theorem Carries.leaf {l : Layout} {v : Value} {bytes : Bytes}
    (h : leafBytes? options l v = some bytes) (address : Int) :
    Carries m (accesses options m l address v) (store options l address v) := by
  intro m' _
  rw [accesses_leaf h, store_leaf h]
  change _ = (Store.perform ⟨address, bytes⟩ >>= fun _ => pure ()) m'
  rw [Effect.bind_apply]
  rcases Store.perform ⟨address, bytes⟩ m' with ⟨r, m''⟩
  cases r <;> rfl

theorem Carries.pointer {width : AddressWidth} {inner : Layout} {address : Int} {v : Value}
    {data : Bytes} (h : m.load address width.bytes = .ok data)
    (hinner : Carries m (accesses options m inner (options.byteOrder.load data) v)
      (store options inner (options.byteOrder.load data) v)) :
    Carries m (accesses options m (.pointer width inner) address v)
      (store options (.pointer width inner) address v) := by
  rw [accesses_pointer h]
  intro m' hm
  simp only [followed_follow, List.forall_mem_cons] at hm
  have hload : m'.load address width.bytes = .ok data := hm.1.trans h
  rw [store, Effect.bind_of_ok (by rw [Update.inspect, Memory.loadNumber_of_ok hload])]
  exact hinner m' hm.2

theorem Carries.fields {fields : List (Field Layout)} {entries : List (Entry Value)}
    (present : ∀ f ∈ fields, ∃ v, Value.lookup? entries f.name = some v)
    (each : ∀ f ∈ fields, ∀ v, Value.lookup? entries f.name = some v → ∀ address,
      Undisturbed m (accesses options m f.type address v) →
        Carries m (accesses options m f.type address v) (store options f.type address v))
    (address : Int) (h : Undisturbed m (accesses.fieldAccesses options m fields address entries)) :
    Carries m (accesses.fieldAccesses options m fields address entries)
      (store.storeFields options fields address entries) := by
  induction fields with
  | nil => exact carries_nil
  | cons f rest ih =>
    rw [List.forall_mem_cons] at present each
    obtain ⟨v, hv⟩ := present.1
    rw [fieldAccesses_cons hv] at h ⊢
    rw [store.storeFields, hv]
    exact (each.1 v hv _ h.left).bind (ih present.2 each.2 h.right) h.across

theorem Carries.each {accessesAt : Int → Value → List Access}
    {storeAt : Int → Value → Update Unit} {items : List Value}
    (each : ∀ v ∈ items, ∀ address, Undisturbed m (accessesAt address v) →
      Carries m (accessesAt address v) (storeAt address v))
    (stride : Nat) (address : Int)
    (h : Undisturbed m (accessesOfEach accessesAt stride items address)) :
    Carries m (accessesOfEach accessesAt stride items address)
      (storeEach storeAt stride items address) := by
  induction items generalizing address with
  | nil => exact carries_nil
  | cons v rest ih =>
    rw [List.forall_mem_cons] at each
    exact (each.1 _ h.left).bind (ih each.2 _ h.right) h.across

/-- Writing what fits carries out its plan, if the plan does not harm itself. -/
theorem Fits.carries {l : Layout} {v : Value} (h : Fits options l v) (hg : l.isGenuine = true)
    (address : Int) (hm : Undisturbed m (accesses options m l address v)) :
    Carries m (accesses options m l address v) (store options l address v) := by
  induction h generalizing address with
  | leaf h => exact .leaf h address
  | @pointer width inner v _ ih =>
    obtain ⟨data, hdata⟩ := hm.readable ⟨address, width.bytes⟩ (by simp [accesses])
    refine .pointer hdata (ih hg _ ?_)
    rw [accesses_pointer hdata] at hm
    exact hm.tail
  | struct present _ ih =>
    rw [Layout.isGenuine, Layout.fieldsGenuine_iff] at hg
    exact .fields present (fun f hf v hv => ih f hf v hv (hg f hf)) address hm
  | @collection element items _ ih =>
    have hsize : element.size? = .ok element.size := Layout.size?_eq_ok hg
    rw [store, hsize, Update.lift_ok_bind]
    exact .each (fun v hv => ih v hv hg) element.size address hm

/-- **Writing is its plan**: the stores that were planned on the memory, one after another. -/
theorem write_eq_performAll {l : Layout} (hg : l.isGenuine = true) {v at_ : Value}
    (hc : check options l v = .ok ()) {address : Nat} (hat : at_.location = .ok address)
    (hm : Undisturbed m (accesses options m l address v)) :
    write options l at_ v m = performAll (stores (accesses options m l address v)) m := by
  rw [write_eq_store hc hat]
  exact (check_eq_ok_iff.mp hc).carries hg address hm m fun _ _ => rfl

end Carries

/-! ### How a write ends -/

/-- The bytes of the store can be made, and the memory has room for them where they go. -/
structure Store.IsPossible [Host] (m : Memory) (s : Store) : Prop where
  makeable : fillingFault? s.bytes.length = none
  inside : s.slot.LiesIn m

section Outcome

variable [Host] {m : Memory} {s : Store}

theorem Store.fault?_of_makeable (hm : m.IsWritable) (h : fillingFault? s.bytes.length = none) :
    s.fault? m = if s.slot.LiesIn m then none else
      some (.memoryAccess s.address (.outOfRange s.bytes.length m.base m.limit)) := by
  by_cases hs : s.bytes = []
  · have hinside : s.slot.LiesIn m := Or.inl (by simp [slot, hs])
    rw [fault?, if_pos hs, if_pos hinside]
  · have hinside : s.slot.LiesIn m ↔ m.covers s.address s.bytes.length = true :=
      or_iff_right (by simpa [slot] using hs)
    have hraised : ∀ low high : Int,
        (Error.memoryAccess s.address (.outOfRange s.bytes.length low high)).raised =
          .memoryAccess s.address (.outOfRange s.bytes.length low high) := fun low high =>
      raised_eq rfl (lt_room_of_fillingFault? h)
    rw [fault?, if_neg hs, h]
    by_cases hc : m.covers s.address s.bytes.length = true
    · simp [Memory.writeFault?, hm.fault, hm.readOnly, hinside, hc]
    · simp [Memory.writeFault?, hm.fault, hm.readOnly, hinside, hc, hraised,
        Memory.Fault.atAddress]

theorem Store.IsPossible.fault? (h : s.IsPossible m) (hm : m.IsWritable) : s.fault? m = none := by
  rw [fault?_of_makeable hm h.makeable, if_pos h.inside]

/-- A store fails first of all if its bytes cannot be made. -/
theorem Store.fault?_of_fillingFault? {e : Error} (h : fillingFault? s.bytes.length = some e) :
    s.fault? m = some e := by
  have hs : s.bytes ≠ [] := by
    intro hs
    rw [hs, List.length_nil, fillingFault?_of_le (Nat.zero_le _)] at h
    cases h
  rw [fault?, if_neg hs, h]

/-- **How a write ends**, told from the memory before it. If all stores of its plan are
possible they are all done. If not, those before the first that is not possible are done, and
the write fails: as an access out of range at the address of that store, or for its bytes
if they cannot even be made. In any case the pointers that were followed stay, and so do all
bytes that no store goes to. -/
theorem write_outcome {l : Layout} (hg : l.isGenuine = true) {v at_ : Value}
    (hc : check options l v = .ok ()) {address : Nat} (hat : at_.location = .ok address)
    (hm : m.IsWritable) (hplan : Undisturbed m (accesses options m l address v)) :
    let plan := accesses options m l address v
    ((∀ s ∈ stores plan, s.IsPossible m) →
      write options l at_ v m = (.ok (), storeAll m (stores plan))) ∧
    (∀ before s after, stores plan = before ++ s :: after → (∀ b ∈ before, b.IsPossible m) →
      (fillingFault? s.bytes.length = none → ¬s.slot.LiesIn m → write options l at_ v m =
        (.error (.memoryAccess s.address (.outOfRange s.bytes.length m.base m.limit)),
          storeAll m before)) ∧
      ∀ e, fillingFault? s.bytes.length = some e →
        write options l at_ v m = (.error e, storeAll m before)) ∧
    (∀ t ∈ followed plan, (write options l at_ v m).2.load t.address t.length =
      m.load t.address t.length) ∧
    ∀ x, (∀ s ∈ stores plan, ¬s.slot.Contains x) →
      (write options l at_ v m).2.byteAt? x = m.byteAt? x := by
  intro plan
  have hwrite : write options l at_ v m = performAll (stores plan) m :=
    write_eq_performAll hg hc hat hplan
  rw [hwrite]
  refine ⟨fun h => ?_, fun before s after hsplit hbefore => ⟨fun hmake hout => ?_, ?_⟩,
    fun t ht => ?_, fun x hx => ?_⟩
  · exact performAll_of_forall fun s hs => (h s hs).fault? hm
  · rw [hsplit]
    refine performAll_of_fault (fun b hb => (hbefore b hb).fault? hm) ?_
    rw [Store.fault?_of_makeable hm hmake, if_neg hout]
  · intro e he
    rw [hsplit]
    exact performAll_of_fault (fun b hb => (hbefore b hb).fault? hm)
      (Store.fault?_of_fillingFault? he)
  · exact load_performAll_of_disjoint (hplan.disjoint t ht)
  · exact byteAt?_performAll hx

end Outcome

/-- A struct of a pointer and a number: what is given for the pointer is stored where it points,
and the pointer stays. -/
theorem write_outcome_through_pointer :
    write {} (.struct [⟨0, "to", .pointer .narrow (.integer .uint8)⟩, ⟨4, "n", .integer .uint16⟩])
      (.int 0) (.record [⟨"n", .int 513⟩, ⟨"to", .int 7⟩]) { bytes := [6, 0, 0, 0, 9, 9, 9, 9] } =
    (.ok (), { bytes := [6, 0, 0, 0, 1, 2, 7, 9] }) := by
  have hplan : accesses {} { bytes := [6, 0, 0, 0, 9, 9, 9, 9] }
      (.struct [⟨0, "to", .pointer .narrow (.integer .uint8)⟩, ⟨4, "n", .integer .uint16⟩]) 0
      (.record [⟨"n", .int 513⟩, ⟨"to", .int 7⟩]) =
    [.follow ⟨0, 4⟩, .store ⟨6, [7]⟩, .store ⟨4, [1, 2]⟩] := rfl
  have hat : (Value.int 0).location = .ok 0 := rfl
  refine (write_outcome rfl rfl hat ⟨rfl, rfl⟩ ?_).1 ?_
  · rw [Int.natCast_zero, hplan]
    refine ⟨?_, ?_⟩
    · simp only [followed_follow, followed_store, List.forall_mem_cons]
      exact ⟨⟨_, rfl⟩, fun t ht => absurd ht List.not_mem_nil⟩
    · decide
  · rw [Int.natCast_zero, hplan]
    simp only [stores_follow, stores_store, List.forall_mem_cons]
    exact ⟨⟨fillingFault?_of_le (by decide), by decide⟩,
      ⟨fillingFault?_of_le (by decide), by decide⟩, fun s hs => absurd hs List.not_mem_nil⟩

/-- An empty text has the bytes for any slot: nothing but zeros. -/
theorem leafBytes?_empty [Host] (n : Nat) :
    leafBytes? {} (.text n) (.text []) = some (List.replicate n 0) := by
  obtain ⟨hn, hof⟩ := known_of_mem ("utf-8", .utf8) (by simp [narrowNames])
  have hcoded : encodeText (some "utf-8") [] = .ok [] := (encodeText_eq_ok_iff hn hof).mpr rfl
  exact textBytes?_eq_some_iff.mpr ⟨[], hcoded, Nat.zero_le _, by simp⟩

theorem write_empty_of_fillingFault? [Host] {n : Nat} {e : Error} (h : fillingFault? n = some e)
    (m : Memory) : write {} (.text n) (.int 0) (.text []) m = (.error e, m) := by
  have hc : check {} (.text n) (.text []) = .ok () :=
    (check_leaf_iff rfl).mpr ⟨_, leafBytes?_empty n⟩
  have hat : (Value.int 0).location = .ok 0 := rfl
  rw [write_eq_store hc hat, store_leaf (leafBytes?_empty n), Store.perform,
    List.length_replicate, h]
  rfl

theorem not_liesIn_of_length_lt {s : Slot} {m : Memory} (h : m.bytes.length < s.length) :
    ¬s.LiesIn m := by
  rintro (hs | hs)
  · omega
  · have hc := Memory.covers_iff.mp hs
    omega

/-- **Not every failure is one of memory.** An empty text passes the check of a slot that is
longer than a row of bytes can be. No pointer is in the way, the one store of the plan does not
lie in the memory, and yet it is not the memory that the write fails for. -/
theorem write_text_too_long :
    let l := Layout.text (wordCount 63)
    let m : Memory := { bytes := [0, 0, 0, 0] }
    let plan := accesses {} m l 0 (.text [])
    check {} l (.text []) = .ok () ∧ m.IsWritable ∧ Undisturbed m plan ∧
      (∃ s, stores plan = [s] ∧ s.address = 0 ∧ ¬s.slot.LiesIn m) ∧
      ∀ address cause, (write {} l (.int 0) (.text []) m).1 ≠
        .error (.memoryAccess address cause) := by
  have hfill : fillingFault? (wordCount 63) = some (.failure .tooLarge) := by
    rw [fillingFault?, if_pos (by decide)]
  have hlong : 4 < wordCount 63 := by decide
  revert hfill hlong
  generalize wordCount 63 = n
  intro hfill hlong l m plan
  have hplan : plan = [.store ⟨0, List.replicate n 0⟩] := accesses_leaf (leafBytes?_empty n) m 0
  refine ⟨(check_leaf_iff rfl).mpr ⟨_, leafBytes?_empty n⟩, ⟨rfl, rfl⟩,
    .of_followed_eq_nil (by rw [hplan]; rfl), ⟨_, by rw [hplan]; rfl, rfl, ?_⟩, ?_⟩
  · refine not_liesIn_of_length_lt ?_
    rw [Store.slot, List.length_replicate]
    exact hlong
  · intro address cause
    rw [write_empty_of_fillingFault? hfill]
    intro h
    cases h

end TypedMemory.Codec
