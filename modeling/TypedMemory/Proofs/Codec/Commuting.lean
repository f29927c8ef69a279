import TypedMemory.Proofs.Codec.Footprint

/-!
# Writes that do not meet

Without pointers a write looks at nothing that is in memory: what it leaves at an address is
made of what was there and of no other byte, and whether it fails, and how far it comes, hangs
on the frame alone. An update of this kind is **blind** (`TypedMemory.Codec.IsBlind`).

Two blind updates that keep to slots apart from each other can be done in either order
(`TypedMemory.Codec.KeepsTo.comm`): at every address at most one of them does something, and it
does there what it would have done without the other. This goes for writes that break off as
well (`TypedMemory.Codec.write_comm`), so the fields of one struct may overlap each other, and a
value may be refused.
-/

namespace TypedMemory

namespace Codec

open Memory (SameFrame)

section Blind

variable [Host] {options : Options}

/-! ### Updates that do not look at memory -/

/-- **The update does not look at the bytes in memory**: from two memories of the same frame it
ends alike, and where these have the same byte it leaves the same byte. -/
structure IsBlind (x : Update Unit) : Prop where
  frame : ∀ m, SameFrame m (x m).2
  outcome : ∀ m m', SameFrame m m' → (x m').1 = (x m).1
  bytes : ∀ m m' a, SameFrame m m' → m'.byteAt? a = m.byteAt? a →
    (x m').2.byteAt? a = (x m).2.byteAt? a

namespace IsBlind

omit [Host] in
theorem lift (r : Except Error Unit) : IsBlind (Update.lift r) :=
  ⟨.refl, fun _ _ _ => rfl, fun _ _ _ _ h => h⟩

omit [Host] in
theorem bind {x y : Update Unit} (hx : IsBlind x) (hy : IsBlind y) :
    IsBlind (x >>= fun _ => y) := by
  -- The two runs of a sequence take the same branch behind its first part.
  have hcases : ∀ m m', SameFrame m m' →
      (∃ e, (x >>= fun _ => y) m = (.error e, (x m).2) ∧
        (x >>= fun _ => y) m' = (.error e, (x m').2)) ∨
      (x >>= fun _ => y) m = y (x m).2 ∧ (x >>= fun _ => y) m' = y (x m').2 := by
    intro m m' hframe
    have houtcome := hx.outcome m m' hframe
    rw [Effect.bind_apply, Effect.bind_apply]
    generalize x m = p, x m' = p' at houtcome ⊢
    rcases p with ⟨r, m₁⟩
    rcases p' with ⟨r', m₁'⟩
    obtain rfl : r' = r := houtcome
    cases r' with
    | error e => exact .inl ⟨e, rfl, rfl⟩
    | ok u => exact .inr ⟨rfl, rfl⟩
  have hbehind : ∀ m m', SameFrame m m' → SameFrame (x m).2 (x m').2 := fun m m' hframe =>
    (hx.frame m).symm.trans (hframe.trans (hx.frame m'))
  refine ⟨fun m => ?_, fun m m' hframe => ?_, fun m m' a hframe ha => ?_⟩
  · rcases hcases m m (.refl m) with ⟨e, h, -⟩ | ⟨h, -⟩ <;> rw [h]
    · exact hx.frame m
    · exact (hx.frame m).trans (hy.frame _)
  · rcases hcases m m' hframe with ⟨e, h, h'⟩ | ⟨h, h'⟩ <;> rw [h, h']
    exact hy.outcome _ _ (hbehind m m' hframe)
  · rcases hcases m m' hframe with ⟨e, h, h'⟩ | ⟨h, h'⟩ <;> rw [h, h']
    · exact hx.bytes m m' a hframe ha
    · exact hy.bytes _ _ a (hbehind m m' hframe) (hx.bytes m m' a hframe ha)

/-- A store puts the same bytes whatever is there. -/
theorem perform (s : Store) : IsBlind s.perform := by
  have hbyte : ∀ (m : Memory) (a : Int), s.fault? m = none →
      (m.replace s.address s.bytes).byteAt? a =
        if s.slot.Contains a then s.bytes[(a - s.address).toNat]? else m.byteAt? a := by
    intro m a h
    by_cases ha : s.slot.Contains a
    · have hs : s.bytes ≠ [] := by
        rintro hs
        simp only [Store.slot, Slot.Contains, hs, List.length_nil] at ha
        omega
      exact Memory.byteAt?_replace (Store.covers_of_fault? hs h) a
    · rw [if_neg ha, Store.byteAt?_replace_of_not_mem h ha]
  refine ⟨(KeepsTo.perform s).frame, fun m m' hframe => ?_, fun m m' a hframe ha => ?_⟩
  · rw [Store.perform_eq, Store.perform_eq, Store.fault?_congr hframe]
    cases s.fault? m <;> rfl
  · rw [Store.perform_eq, Store.perform_eq, Store.fault?_congr hframe]
    cases h : s.fault? m with
    | some e => exact ha
    | none =>
      have h' : s.fault? m' = none := (Store.fault?_congr hframe s).trans h
      simp only [hbyte m a h, hbyte m' a h', ha]

end IsBlind

/-- **Without pointers a write does not look at memory**, whatever the value. -/
theorem write_isBlind {l : Layout} (hp : l.isPointerFree = true) {at_ : Value} {address : Nat}
    (hat : at_.location = .ok address) (v : Value) : IsBlind (write options l at_ v) :=
  Composes.write (P := fun _ x => IsBlind x) ⟨fun _ => .lift, .perform, .bind⟩ hp hat v

/-! ### Either order -/

omit [Host] in
/-- **Two blind updates that keep to slots apart** can be done in either order, and each ends as
it would without the other. -/
theorem KeepsTo.comm {ss ts : List Slot} {x y : Update Unit} (hx : KeepsTo ss x)
    (hy : KeepsTo ts y) (hblind : IsBlind x) (hblind' : IsBlind y)
    (hapart : ∀ s ∈ ss, ∀ t ∈ ts, s.Disjoint t) (m : Memory) :
    (y (x m).2).2 = (x (y m).2).2 ∧ (x (y m).2).1 = (x m).1 ∧ (y (x m).2).1 = (y m).1 := by
  have hframe := hx.frame m
  have hframe' := hy.frame m
  refine ⟨Memory.eq_of_byteAt? ?_ fun a => ?_, hblind.outcome _ _ hframe',
    hblind'.outcome _ _ hframe⟩
  · exact ((hframe'.trans (hx.frame _)).symm.trans hframe).trans (hy.frame _)
  · by_cases ha : ∃ s ∈ ss, s.Contains a
    · -- The second update does nothing here, so the first finds what it would have found.
      obtain ⟨s, hs, ha⟩ := ha
      have hout : ∀ t ∈ ts, ¬t.Contains a := fun t ht => hapart s hs t ht a ha
      calc (y (x m).2).2.byteAt? a = (x m).2.byteAt? a := hy.outside _ a hout
        _ = (x (y m).2).2.byteAt? a :=
          (hblind.bytes m _ a hframe' (hy.outside m a hout)).symm
    · have hout : ∀ s ∈ ss, ¬s.Contains a := fun s hs hsa => ha ⟨s, hs, hsa⟩
      calc (y (x m).2).2.byteAt? a = (y m).2.byteAt? a :=
          hblind'.bytes m _ a hframe (hx.outside m a hout)
        _ = (x (y m).2).2.byteAt? a := (hx.outside _ a hout).symm

/-- **Writes to slots apart commute.** Without pointers, and where no slot of the one has a byte
in common with a slot of the other, two writes leave the same memory in either order, and each
of them ends in the same way, whatever the values, the options and the memory are, and also where
one of them or both fail before the first slot or partway. -/
theorem write_comm {l l' : Layout} (hp : l.isPointerFree = true) (hp' : l'.isPointerFree = true)
    {at_ at' : Value} {address address' : Nat} (hat : at_.location = .ok address)
    (hat' : at'.location = .ok address')
    (hapart : ∀ s ∈ l.slots address, ∀ s' ∈ l'.slots address', s.Disjoint s')
    (options options' : Options) (v v' : Value) (m : Memory) :
    let first := write options l at_ v
    let second := write options' l' at' v'
    (second (first m).2).2 = (first (second m).2).2 ∧
      (first (second m).2).1 = (first m).1 ∧ (second (first m).2).1 = (second m).1 :=
  (write_keepsTo hp hat v).comm (write_keepsTo hp' hat' v') (write_isBlind hp hat v)
    (write_isBlind hp' hat' v') hapart m

end Blind

/-- Two fields that overlap each other, and around them a struct of which the last field lies
behind the end of memory: the second write breaks off, in either order, with its first byte
stored. -/
theorem write_comm_partway :
    let first := write {} (.struct [⟨0, "a", .integer .uint16⟩, ⟨1, "b", .integer .uint16⟩])
      (.int 2) (.record [⟨"b", .int 0x0403⟩, ⟨"a", .int 0x0201⟩])
    let second := write {} (.struct [⟨0, "c", .integer .uint8⟩, ⟨6, "d", .integer .uint8⟩])
      (.address 0) (.record [⟨"c", .int 7⟩, ⟨"d", .int 8⟩])
    let m : Memory := { bytes := [0, 0, 0, 0, 0, 0] }
    (first m).1 = .ok () ∧ (second m).1 = .error (.memoryAccess 6 (.outOfRange 1 0 6)) ∧
      second (first m).2 = ((second m).1, { bytes := [7, 0, 1, 3, 4, 0] }) ∧
      first (second m).2 = ((first m).1, { bytes := [7, 0, 1, 3, 4, 0] }) := by
  intro first second m
  have hapart : ∀ s ∈ (Layout.struct [⟨0, "a", .integer .uint16⟩, ⟨1, "b", .integer .uint16⟩]).slots
        (2 : Nat),
      ∀ s' ∈ (Layout.struct [⟨0, "c", .integer .uint8⟩, ⟨6, "d", .integer .uint8⟩]).slots (0 : Nat),
      s.Disjoint s' := by decide
  have hat : (Value.int 2).location = .ok 2 := rfl
  have hat' : (Value.address 0).location = .ok 0 := rfl
  obtain ⟨hmemory, hfirst, hsecond⟩ := write_comm rfl rfl hat hat' hapart {} {}
    (.record [⟨"b", .int 0x0403⟩, ⟨"a", .int 0x0201⟩]) (.record [⟨"c", .int 7⟩, ⟨"d", .int 8⟩]) m
  have hbytes : (second (first m).2).2 = { bytes := [7, 0, 1, 3, 4, 0] } := by rfl
  refine ⟨by rfl, by rfl, Prod.ext hsecond hbytes, Prod.ext hfirst (hmemory.symm.trans hbytes)⟩

end Codec

end TypedMemory
