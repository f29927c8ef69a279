import TypedMemory.Proofs.Codec.Shape
import TypedMemory.Proofs.Effect

/-!
# Stores

Writing a value comes down to **stores**: bytes that are put at an address, one leaf at a
time. A store of no bytes does nothing, wherever it is. Any other one fails without changing
a byte if its bytes cannot be made or the memory refuses them, and puts them in their place
if not (`TypedMemory.Codec.Store.perform_eq`); whether it fails hangs on the frame of memory
alone, so no store makes another one fail.

For a row of stores the first that fails ends the writing, and those before it stay
(`TypedMemory.Codec.performAll_of_fault`).
-/

namespace TypedMemory.Codec

/-! ### Results that do not touch memory -/

theorem Update.lift_ok_bind {α β : Type} (a : α) (f : α → Update β) :
    (Update.lift (.ok a) >>= f) = f a :=
  funext fun _ => Effect.bind_of_ok rfl

theorem Update.lift_error_bind {α β : Type} (e : Error) (f : α → Update β) :
    (Update.lift (.error e) >>= f) = Update.lift (.error e) :=
  funext fun _ => Effect.bind_of_error rfl

variable [Host]

/-- **What writing comes to**: it fails before it touches memory, or stores a value that has
passed the check. -/
theorem write_cases (options : Options) (l : Layout) (at_ v : Value) :
    (∃ e, write options l at_ v = Update.lift (.error e)) ∨
      ∃ address, check options l v = .ok () ∧ at_.location = .ok address ∧
        write options l at_ v = store options l address v := by
  rw [write]
  cases hcheck : check options l v with
  | error e => exact Or.inl ⟨e, Update.lift_error_bind e _⟩
  | ok u =>
    rw [Update.lift_ok_bind]
    cases hat : at_.location with
    | error e => exact Or.inl ⟨e, Update.lift_error_bind e _⟩
    | ok address => exact Or.inr ⟨address, rfl, rfl, Update.lift_ok_bind address _⟩

theorem write_eq_store {options : Options} {l : Layout} {at_ v : Value} {address : Nat}
    (hc : check options l v = .ok ()) (hat : at_.location = .ok address) :
    write options l at_ v = store options l address v := by
  rw [write, hc, Update.lift_ok_bind, hat, Update.lift_ok_bind]

/-! ### What a store is -/

/-- Bytes to be put at an address. -/
structure Store where
  address : Int
  bytes : Bytes

namespace Store

/-- Where the bytes go. -/
def slot (s : Store) : Slot := ⟨s.address, s.bytes.length⟩

/-- Put the bytes in their place. They have to be made first, which is asked of their number
alone. -/
def perform (s : Store) : Update Unit :=
  match fillingFault? s.bytes.length with
  | some e => Update.lift (.error e)
  | none => storeSlot s.address s.bytes.length s.bytes

/-- **Why the store fails** in a memory, if it does. -/
def fault? (s : Store) (m : Memory) : Option Error :=
  if s.bytes = [] then none
  else
    match fillingFault? s.bytes.length with
    | some e => some e
    | none => (m.writeFault? s.address s.bytes.length).map (Memory.Fault.atAddress s.address)

end Store

/-! ### Lengths -/

/-- Where bytes can be made at all, there are not too many of them to be counted. -/
theorem lt_room_of_fillingFault? {n : Nat} (h : fillingFault? n = none) : n < Host.room := by
  refine Nat.lt_of_not_le fun hn => ?_
  rw [fillingFault?, if_pos hn] at h
  split at h <;> cases h

theorem fillingFault?_of_le {n : Nat} (h : n ≤ 8) : fillingFault? n = none := by
  have hroom := Host.lt_room
  have hlimit := Host.room_le_rowLimit
  rw [fillingFault?, if_neg (by omega), if_neg (by omega)]

theorem isSpellable_of_lt_room {n : Nat} (h : n < Host.room) : Numeral.isSpellable n = true := by
  have hroom := Host.room_le_rowLimit
  have hlimit : rowLimit ≤ 10 ^ 19 := by decide
  have hpow : 10 ^ 19 ≤ 10 ^ Numeral.digitLimit := Nat.pow_le_pow_right (by decide) (by decide)
  rw [Numeral.isSpellable, decide_eq_true_eq, Int.natAbs_natCast,
    Nat.length_toDigits_le_iff (by decide) (by decide)]
  omega

theorem raised_eq {e : Error} {n : Nat} (he : e.numerals = [(n : Int)]) (hn : n < Host.room) :
    e.raised = e := by
  rw [Error.raised, he, List.all_cons, isSpellable_of_lt_room hn, List.all_nil]
  rfl

/-! ### One store -/

variable {s : Store} {m m' : Memory}

/-- What a store does: nothing if it fails, and nothing but to put its bytes if it does
not. -/
theorem Store.perform_eq (s : Store) (m : Memory) : s.perform m =
    match s.fault? m with
    | some e => (.error e, m)
    | none => (.ok (), m.replace s.address s.bytes) := by
  by_cases hs : s.bytes = []
  · have hreplace : m.replace s.address [] = m := by simp [Memory.replace]
    simp [perform, fault?, hs, fillingFault?_of_le, storeSlot, Update.step, Memory.store, hreplace]
  · have hlen : s.bytes.length ≠ 0 := by simpa using hs
    rw [perform, fault?, if_neg hs]
    cases hfill : fillingFault? s.bytes.length with
    | some e => rfl
    | none =>
      simp only [storeSlot, Update.step, Memory.store, if_neg hlen]
      cases m.writeFault? s.address s.bytes.length with
      | some e => rfl
      | none => simp

/-- Whether a store fails hangs on the frame alone. -/
theorem Store.fault?_congr (h : Memory.SameFrame m m') (s : Store) : s.fault? m' = s.fault? m := by
  rw [fault?, fault?, h.writeFault?]

/-- Memory refuses no store of some bytes that does not fail. -/
theorem Store.writeFault?_eq_none (hs : s.bytes ≠ []) (h : s.fault? m = none) :
    m.writeFault? s.address s.bytes.length = none := by
  rw [fault?, if_neg hs] at h
  split at h
  · cases h
  · exact Option.map_eq_none_iff.mp h

/-- A store of some bytes that does not fail is covered by memory. -/
theorem Store.covers_of_fault? (hs : s.bytes ≠ []) (h : s.fault? m = none) :
    m.covers s.address s.bytes.length = true :=
  Memory.covers_of_writeFault? (writeFault?_eq_none hs h)

omit [Host] in
theorem Store.replace_eq_self (hs : s.bytes = []) : m.replace s.address s.bytes = m := by
  simp [hs, Memory.replace]

/-- A store that does not fail leaves the frame. -/
theorem Store.sameFrame_replace (h : s.fault? m = none) :
    Memory.SameFrame m (m.replace s.address s.bytes) := by
  by_cases hs : s.bytes = []
  · rw [replace_eq_self hs]
    exact .refl m
  · exact Memory.sameFrame_replace (covers_of_fault? hs h)

theorem Store.byteAt?_replace_of_not_mem (h : s.fault? m = none) {x : Int}
    (hx : ¬s.slot.Contains x) : (m.replace s.address s.bytes).byteAt? x = m.byteAt? x := by
  by_cases hs : s.bytes = []
  · rw [replace_eq_self hs]
  · exact Memory.byteAt?_replace_of_not_mem (covers_of_fault? hs h) hx

theorem Store.load_replace_self (hm : m.fault = none) (h : s.fault? m = none) :
    (m.replace s.address s.bytes).load s.address s.bytes.length = .ok s.bytes := by
  by_cases hs : s.bytes = []
  · simp [hs, Memory.load]
  · exact Memory.load_replace_self hm (covers_of_fault? hs h)

/-! ### Rows of stores -/

/-- One store after another. -/
def performAll : List Store → Update Unit
  | [] => pure ()
  | s :: rest => do
    s.perform
    performAll rest

/-- The memory with the bytes of every store in their place, those of later stores over
those of earlier ones. -/
def storeAll (m : Memory) (stores : List Store) : Memory :=
  stores.foldl (fun m s => m.replace s.address s.bytes) m

theorem performAll_append (ss ts : List Store) :
    performAll (ss ++ ts) = (performAll ss >>= fun _ => performAll ts) := by
  induction ss with
  | nil => rfl
  | cons s ss ih => rw [List.cons_append, performAll, performAll, ih, bind_assoc]

section Rows

variable {stores : List Store}

theorem sameFrame_storeAll (h : ∀ s ∈ stores, s.fault? m = none) :
    Memory.SameFrame m (storeAll m stores) := by
  induction stores generalizing m with
  | nil => exact .refl m
  | cons s rest ih =>
    rw [List.forall_mem_cons] at h
    have hframe := Store.sameFrame_replace h.1
    exact hframe.trans (ih fun t ht => (Store.fault?_congr hframe t).trans (h.2 t ht))

/-- Stores of which none fails all put their bytes. -/
theorem performAll_of_forall (h : ∀ s ∈ stores, s.fault? m = none) :
    performAll stores m = (.ok (), storeAll m stores) := by
  induction stores generalizing m with
  | nil => rfl
  | cons s rest ih =>
    rw [List.forall_mem_cons] at h
    have hframe := Store.sameFrame_replace h.1
    rw [performAll, Effect.bind_of_ok (by rw [Store.perform_eq, h.1])]
    exact ih fun t ht => (Store.fault?_congr hframe t).trans (h.2 t ht)

/-- **The first store that fails** ends the row, and what was stored before it stays. -/
theorem performAll_of_fault {before after : List Store} {e : Error}
    (h : ∀ b ∈ before, b.fault? m = none) (hs : s.fault? m = some e) :
    performAll (before ++ s :: after) m = (.error e, storeAll m before) := by
  have hfault : s.fault? (storeAll m before) = some e :=
    (Store.fault?_congr (sameFrame_storeAll h) s).trans hs
  rw [performAll_append, Effect.bind_of_ok (performAll_of_forall h), performAll,
    Effect.bind_of_error (by rw [Store.perform_eq, hfault])]

/-- A row of stores either goes through or breaks off at the first that fails. -/
theorem forall_or_exists_fault (stores : List Store) (m : Memory) :
    (∀ s ∈ stores, s.fault? m = none) ∨ ∃ before s after e, stores = before ++ s :: after ∧
      (∀ b ∈ before, b.fault? m = none) ∧ s.fault? m = some e := by
  induction stores with
  | nil => exact Or.inl fun s hs => absurd hs List.not_mem_nil
  | cons s rest ih =>
    cases hs : s.fault? m with
    | some e => exact Or.inr ⟨[], s, rest, e, rfl, fun b hb => absurd hb List.not_mem_nil, hs⟩
    | none =>
      rcases ih with h | ⟨before, t, after, e, rfl, h, ht⟩
      · exact Or.inl (List.forall_mem_cons.mpr ⟨hs, h⟩)
      · exact Or.inr ⟨s :: before, t, after, e, rfl, List.forall_mem_cons.mpr ⟨hs, h⟩, ht⟩

/-- The memory that a row of stores leaves is that of some of the first of them, none of
which fails. -/
theorem exists_performAll_eq (stores : List Store) (m : Memory) : ∃ done, done <+: stores ∧
    (∀ s ∈ done, s.fault? m = none) ∧ (performAll stores m).2 = storeAll m done := by
  rcases forall_or_exists_fault stores m with h | ⟨before, s, after, e, rfl, h, hs⟩
  · exact ⟨stores, List.prefix_refl _, h, by rw [performAll_of_forall h]⟩
  · exact ⟨before, List.prefix_append _ _, h, by rw [performAll_of_fault h hs]⟩

theorem byteAt?_storeAll (h : ∀ s ∈ stores, s.fault? m = none) {x : Int}
    (hx : ∀ s ∈ stores, ¬s.slot.Contains x) : (storeAll m stores).byteAt? x = m.byteAt? x := by
  induction stores generalizing m with
  | nil => rfl
  | cons s rest ih =>
    rw [List.forall_mem_cons] at h hx
    have hframe := Store.sameFrame_replace h.1
    have hrest := ih (fun t ht => (Store.fault?_congr hframe t).trans (h.2 t ht)) hx.2
    exact hrest.trans (Store.byteAt?_replace_of_not_mem h.1 hx.1)

theorem load_storeAll_of_disjoint (h : ∀ s ∈ stores, s.fault? m = none) {t : Slot}
    (ht : ∀ s ∈ stores, t.Disjoint s.slot) :
    (storeAll m stores).load t.address t.length = m.load t.address t.length :=
  Memory.load_congr (sameFrame_storeAll h) fun x hx => byteAt?_storeAll h fun s hs => ht s hs x hx

/-- **Bytes that no store goes to** are left as they are, also where the row breaks off. -/
theorem byteAt?_performAll {x : Int} (hx : ∀ s ∈ stores, ¬s.slot.Contains x) :
    (performAll stores m).2.byteAt? x = m.byteAt? x := by
  obtain ⟨done, hdone, h, heq⟩ := exists_performAll_eq stores m
  rw [heq]
  exact byteAt?_storeAll h fun s hs => hx s (hdone.subset hs)

theorem load_performAll_of_disjoint {t : Slot} (ht : ∀ s ∈ stores, t.Disjoint s.slot) :
    (performAll stores m).2.load t.address t.length = m.load t.address t.length := by
  obtain ⟨done, hdone, h, heq⟩ := exists_performAll_eq stores m
  rw [heq]
  exact load_storeAll_of_disjoint h fun s hs => ht s (hdone.subset hs)

end Rows

/-! ### The store of a leaf -/

theorem storeText_eq {encoding : Option Text} {address : Int} {holds : Nat} {t : Text}
    {bytes : Bytes} (h : textBytes? encoding holds t = some bytes) :
    storeText encoding address holds t = Store.perform ⟨address, bytes⟩ := by
  have hlen := length_of_textBytes? h
  obtain ⟨coded, hcoded, hle, rfl⟩ := textBytes?_eq_some_iff.mp h
  funext m
  rw [storeText, hcoded, Update.lift_ok_bind]
  simp only [Store.perform, hlen]
  cases fillingFault? holds with
  | some e => rfl
  | none =>
    simp only [storeSlot, Update.step, Memory.store, hlen, Nat.max_eq_left hle, Nat.sub_self,
      List.replicate_zero, List.append_nil]

/-- **Writing a leaf** is one store, of the bytes it has for the value. -/
theorem store_leaf {options : Options} {l : Layout} {v : Value} {bytes : Bytes}
    (h : leafBytes? options l v = some bytes) (address : Int) :
    store options l address v = Store.perform ⟨address, bytes⟩ := by
  have hnumber : ∀ (width : Nat) (data : Bytes), data.length = width → width ≤ 8 →
      storeSlot address width data = Store.perform ⟨address, data⟩ := by
    rintro width data rfl hle
    simp only [Store.perform, fillingFault?_of_le hle]
  cases l with
  | integer kind =>
    cases v with
    | int n =>
      cases h
      refine hnumber _ _ (ByteOrder.length_store _ _ _) ?_
      cases kind <;> decide
    | _ => cases h
  | float kind =>
    obtain ⟨code, hcode, rfl⟩ := Option.map_eq_some_iff.mp h
    have hle : kind.width ≤ 8 := by cases kind <;> decide
    rw [← hnumber _ _ (ByteOrder.length_store _ _ _) hle]
    cases v with
    | int n =>
      rw [store, integerAsFloatBytes_eq_ok_iff.mpr ⟨code, hcode, rfl⟩, Update.lift_ok_bind]
    | float x tag =>
      rw [store, floatBytes_eq_ok_iff.mpr ⟨code, hcode, rfl⟩, Update.lift_ok_bind]
    | _ => cases hcode
  | rawAddress width =>
    have hle : width.bytes ≤ 8 := by cases width <;> decide
    cases v with
    | int n =>
      cases h
      exact hnumber _ _ (ByteOrder.length_store _ _ _) hle
    | address n =>
      cases h
      exact hnumber _ _ (ByteOrder.length_store _ _ _) hle
    | _ => cases h
  | text length =>
    cases v with
    | text t => exact storeText_eq h
    | _ => cases h
  | wideText length =>
    cases v with
    | text t => exact storeText_eq h
    | _ => cases h
  | _ => cases h

end TypedMemory.Codec
