import Mathlib.Data.List.Nodup
import Mathlib.Data.List.Perm.Subperm
import TypedMemory.Proofs.Effect
import TypedMemory.Proofs.Value
import TypedMemory.Script.Eval

/-!
# Equality is symmetric

Equality goes by the kind of the value on its left, and each kind has its own list of
what it can equal. Still the two sides can always be exchanged (`Value.equal_comm`). Three
things stand in the way of an induction on one side alone.

* A record looks its entries up among those of the other, so being equal is being included
  in as many. Where each name is there only once that is the same from both sides
  (`Value.entriesEqual_symm`).
* An address with a layout is equal to a layout, and a layout may have such an address in
  the place of another one, so values and layouts are unpacked in turns. The induction is on
  the sizes of both sides together.
* What does not equal itself is the same as itself by its tag, and that is symmetric too.

In a script the two sides are expressions. Where evaluating them has no effect, `==` and
`!=` have opposite answers that do not depend on the order (`Expr.eval_comparison`).
-/

namespace TypedMemory

/-! ### Records with each name once -/

mutual

/-- Whether every record inside the value has each of its names once. -/
def Value.namesOnce : Value → Bool
  | .array items => Value.itemsNamesOnce items
  | .record entries => decide (entries.map Entry.name).Nodup && Value.entriesNamesOnce entries
  | .pointer target _ _ => target.namesOnce
  | .type l => l.namesOnce
  | _ => true

/-- The same for the items of an array. -/
def Value.itemsNamesOnce : List Value → Bool
  | [] => true
  | v :: rest => v.namesOnce && Value.itemsNamesOnce rest

/-- The same for the values of the entries of a record. -/
def Value.entriesNamesOnce : List (Entry Value) → Bool
  | [] => true
  | e :: rest => e.value.namesOnce && Value.entriesNamesOnce rest

/-- Whether every record inside a value in the place of a layout has each of its names once. -/
def Layout.namesOnce : Layout → Bool
  | .pointer _ inner => inner.namesOnce
  | .struct fields => Layout.fieldsNamesOnce fields
  | .collection element _ => element.namesOnce
  | .foreign v => v.namesOnce
  | _ => true

/-- The same for the layouts of fields. -/
def Layout.fieldsNamesOnce : List (Field Layout) → Bool
  | [] => true
  | f :: rest => f.type.namesOnce && Layout.fieldsNamesOnce rest

end

namespace Value

theorem entriesNamesOnce_iff {entries : List (Entry Value)} :
    entriesNamesOnce entries = true ↔ ∀ e ∈ entries, e.value.namesOnce = true := by
  induction entries with
  | nil => simp [entriesNamesOnce]
  | cons e rest ih => simp [entriesNamesOnce, ih]

/-! ### Parts that are the same -/

theorem sameTag_comm (v w : Value) : v.sameTag w = w.sameTag v := by
  simp only [sameTag]
  cases v.tag? <;> cases w.tag? <;> simp [Bool.beq_comm]

end Value

theorem Layout.sameTag_comm (a b : Layout) : a.sameTag b = b.sameTag a := by
  cases a <;> cases b <;> first | rfl | exact Value.sameTag_comm _ _

namespace Value

theorem Number.same_comm (x y : Number) : x.same y = y.same x := by
  cases x <;> cases y <;> simp only [same]
  case whole.whole n k => exact Bool.beq_comm
  case floating.floating x y =>
    rw [Binary64.numericallyEqual, Binary64.numericallyEqual, Bool.and_comm (!x.isNaN),
      Bool.and_comm x.isFinite, Bool.beq_comm (a := x.scaled), Bool.beq_comm (a := x.bits)]

/-- Numbers are compared as numbers. -/
theorem equal_of_number? {v w : Value} {x y : Number} (hv : v.number? = some x)
    (hw : w.number? = some y) : v.equal w = x.same y := by
  cases v <;> cases hv <;> cases w <;> cases hw <;> rfl

theorem entriesEqual_iff {entries others : List (Entry Value)}
    (h : (others.map Entry.name).Nodup) : entriesEqual entries others = true ↔
      ∀ e ∈ entries, ∃ d ∈ others, d.name = e.name ∧
        (e.value.sameTag d.value || e.value.equal d.value) = true := by
  induction entries with
  | nil => simp [entriesEqual]
  | cons e rest ih =>
    rw [entriesEqual, Bool.and_eq_true, ih, List.forall_mem_cons]
    refine and_congr_left' ?_
    cases hlookup : lookup? others e.name with
    | none =>
      refine iff_of_false nofun ?_
      rintro ⟨d, hd, hname, -⟩
      rw [← hname, (lookup?_eq_some_iff h).mpr hd] at hlookup
      cases hlookup
    | some v =>
      have hmem := (lookup?_eq_some_iff h).mp hlookup
      refine ⟨fun hsame => ⟨_, hmem, rfl, hsame⟩, ?_⟩
      rintro ⟨d, hd, hname, hsame⟩
      rw [← hname, (lookup?_eq_some_iff h).mpr hd] at hlookup
      cases hlookup
      exact hsame

/-- As many names of which each is one of the others are all of the others. -/
theorem exists_name_of_length {entries others : List (Entry Value)}
    (h : (entries.map Entry.name).Nodup) (hlength : entries.length = others.length)
    (hsub : ∀ e ∈ entries, ∃ d ∈ others, d.name = e.name) :
    ∀ d ∈ others, ∃ e ∈ entries, e.name = d.name := by
  have hsubset : entries.map Entry.name ⊆ others.map Entry.name := by
    intro name hname
    obtain ⟨e, he, rfl⟩ := List.mem_map.mp hname
    exact List.mem_map.mpr (hsub e he)
  have hperm := (h.subperm hsubset).perm_of_length_le (by simp [hlength])
  intro d hd
  exact List.mem_map.mp (hperm.symm.subset (List.mem_map_of_mem hd))

/-- Entries that are each among as many others have each of the others among them. -/
theorem entriesEqual_symm {entries others : List (Entry Value)}
    (h : (entries.map Entry.name).Nodup) (h' : (others.map Entry.name).Nodup)
    (hlength : entries.length = others.length)
    (hcomm : ∀ e ∈ entries, ∀ d ∈ others, e.value.equal d.value = d.value.equal e.value)
    (hequal : entriesEqual entries others = true) : entriesEqual others entries = true := by
  rw [entriesEqual_iff h'] at hequal
  rw [entriesEqual_iff h]
  intro d hd
  obtain ⟨e, he, hname⟩ := exists_name_of_length h hlength
    (fun e he => (hequal e he).imp fun d hd => ⟨hd.1, hd.2.1⟩) d hd
  refine ⟨e, he, hname, ?_⟩
  -- The entry among the others that belongs to this one has its name, so it is the one given.
  obtain ⟨d', hd', hname', hsame⟩ := hequal e he
  obtain rfl : d' = d := List.inj_on_of_nodup_map h' hd' hd (hname'.trans hname)
  rwa [sameTag_comm, ← hcomm e he d' hd']

theorem entriesEqual_comm {entries others : List (Entry Value)}
    (h : (entries.map Entry.name).Nodup) (h' : (others.map Entry.name).Nodup)
    (hlength : entries.length = others.length)
    (hcomm : ∀ e ∈ entries, ∀ d ∈ others, e.value.equal d.value = d.value.equal e.value) :
    entriesEqual entries others = entriesEqual others entries :=
  Bool.eq_iff_iff.mpr ⟨entriesEqual_symm h h' hlength hcomm,
    entriesEqual_symm h' h hlength.symm fun d hd e he => (hcomm e he d hd).symm⟩

end Value

/-! ### Symmetry -/

theorem Value.equal_record (entries entries' : List (Entry Value)) :
    (record entries).equal (record entries') =
      (entries.length == entries'.length && entriesEqual entries entries') := rfl

theorem Value.equal_pointer (target target' : Layout) (x y : Nat) (tag tag' : Option Nat) :
    (pointer target x tag).equal (pointer target' y tag') =
      (x == y && target.equal target') := rfl

theorem Value.sizeOf_value_lt {e : Entry Value} {entries : List (Entry Value)}
    (he : e ∈ entries) : sizeOf e.value < sizeOf entries := by
  have hlt := List.sizeOf_lt_of_mem he
  obtain ⟨name, v⟩ := e
  calc sizeOf v < sizeOf (Entry.mk name v) := by simp only [Entry.mk.sizeOf_spec]; omega
    _ < sizeOf entries := hlt

/-- A layout beside a value that was put in the place of one. -/
theorem Layout.equal_foreign {l : Layout} (h : l.isForeign = false) (v : Value) :
    l.equal (.foreign v) = (Value.type l).equal v := by
  cases l with
  | foreign w => cases h
  | _ => cases v <;> rfl

mutual

/-- **Equality is symmetric.** -/
theorem Value.equal_comm (v w : Value) (hv : v.namesOnce = true) (hw : w.namesOnce = true) :
    v.equal w = w.equal v := by
  -- Kinds that never equal each other, and those of which both orders have one rule, are settled
  -- by computing.
  cases v <;> cases w <;> try rfl
  case bool.bool | bool.int | int.bool | int.int | float.float =>
    rw [Value.equal_of_number? rfl rfl, Value.equal_of_number? rfl rfl, Value.Number.same_comm]
  case text.text | bytes.bytes | address.address | address.pointer | pointer.address =>
    exact Bool.beq_comm
  case array.array items items' => exact Value.itemsEqual_comm items items' hv hw
  case record.record entries entries' =>
    simp only [Value.namesOnce, Bool.and_eq_true, decide_eq_true_eq] at hv hw
    exact Value.equal_record_comm entries entries' hv.1 hw.1 hv.2 hw.2
  case pointer.pointer target x tag target' y tag' =>
    rw [Value.equal_pointer, Value.equal_pointer, Bool.beq_comm,
      Layout.equal_comm target target' hv hw]
  case pointer.type target x tag l => exact Layout.equal_comm target l hv hw
  case type.pointer l target x tag => exact Layout.equal_comm l target hv hw
  case type.type l l' => exact Layout.equal_comm l l' hv hw
termination_by sizeOf v + sizeOf w

theorem Value.itemsEqual_comm (items items' : List Value)
    (h : Value.itemsNamesOnce items = true) (h' : Value.itemsNamesOnce items' = true) :
    Value.itemsEqual items items' = Value.itemsEqual items' items := by
  match items, items' with
  | [], [] | [], _ :: _ | _ :: _, [] => rfl
  | v :: rest, w :: rest' =>
    simp only [Value.itemsNamesOnce, Bool.and_eq_true] at h h'
    rw [Value.itemsEqual, Value.itemsEqual, Value.sameTag_comm, Value.equal_comm v w h.1 h'.1,
      Value.itemsEqual_comm rest rest' h.2 h'.2]
termination_by sizeOf items + sizeOf items'

theorem Value.equal_record_comm (entries entries' : List (Entry Value))
    (h : (entries.map Entry.name).Nodup) (h' : (entries'.map Entry.name).Nodup)
    (hvalues : Value.entriesNamesOnce entries = true)
    (hvalues' : Value.entriesNamesOnce entries' = true) :
    (Value.record entries).equal (.record entries') =
      (Value.record entries').equal (.record entries) := by
  rw [Value.entriesNamesOnce_iff] at hvalues hvalues'
  rw [Value.equal_record, Value.equal_record, Bool.beq_comm]
  by_cases hlength : entries'.length = entries.length
  · rw [Value.entriesEqual_comm h h' hlength.symm fun e he d hd =>
      have := Value.sizeOf_value_lt he
      have := Value.sizeOf_value_lt hd
      Value.equal_comm e.value d.value (hvalues e he) (hvalues' d hd)]
  · rw [beq_false_of_ne hlength, Bool.false_and, Bool.false_and]
termination_by sizeOf entries + sizeOf entries'

/-- Equality of layouts is symmetric. -/
theorem Layout.equal_comm (a b : Layout) (ha : a.namesOnce = true) (hb : b.namesOnce = true) :
    a.equal b = b.equal a := by
  cases a <;> cases b <;> try rfl
  case integer.integer | float.float | rawAddress.rawAddress | text.text | wideText.wideText =>
    exact Bool.beq_comm
  case pointer.pointer width inner width' inner' =>
    simp only [Layout.equal, Layout.standsFor?]
    rw [Bool.beq_comm, Layout.sameTag_comm, Layout.equal_comm inner inner' ha hb]
  case struct.struct fields fields' => exact Layout.fieldsEqual_comm fields fields' ha hb
  case collection.collection element count element' count' =>
    simp only [Layout.equal, Layout.standsFor?]
    rw [Bool.beq_comm, Layout.sameTag_comm, Layout.equal_comm element element' ha hb]
  case foreign.foreign v w => exact Value.equal_comm v w ha hb
  -- What was put in the place of one layout is a value beside the other layout.
  case foreign.integer | foreign.float | foreign.rawAddress | foreign.pointer | foreign.text
      | foreign.wideText | foreign.struct | foreign.collection =>
    rw [Layout.equal_foreign (by rfl)]
    exact Value.equal_type_comm _ _ ha hb
  case integer.foreign | float.foreign | rawAddress.foreign | pointer.foreign | text.foreign
      | wideText.foreign | struct.foreign | collection.foreign =>
    rw [Layout.equal_foreign (by rfl)]
    exact (Value.equal_type_comm _ _ hb ha).symm
termination_by sizeOf a + sizeOf b

/-- A layout and a value are equal from either side alike. -/
theorem Value.equal_type_comm (v : Value) (b : Layout) (hv : v.namesOnce = true)
    (hb : b.namesOnce = true) : v.equal (.type b) = (Value.type b).equal v := by
  cases v <;> try rfl
  case pointer target x tag => exact Layout.equal_comm target b hv hb
  case type l => exact Layout.equal_comm l b hv hb
termination_by sizeOf v + sizeOf b

theorem Layout.fieldsEqual_comm (fields fields' : List (Field Layout))
    (h : Layout.fieldsNamesOnce fields = true) (h' : Layout.fieldsNamesOnce fields' = true) :
    Layout.fieldsEqual fields fields' = Layout.fieldsEqual fields' fields := by
  match fields, fields' with
  | [], [] | [], _ :: _ | _ :: _, [] => rfl
  | ⟨offset, name, l⟩ :: rest, ⟨offset', name', l'⟩ :: rest' =>
    simp only [Layout.fieldsNamesOnce, Bool.and_eq_true] at h h'
    rw [Layout.fieldsEqual, Layout.fieldsEqual, Layout.sameTag_comm,
      Layout.equal_comm l l' h.1 h'.1, Layout.fieldsEqual_comm rest rest' h.2 h'.2,
      Bool.beq_comm (a := offset), Bool.beq_comm (a := name)]
termination_by sizeOf fields + sizeOf fields'

end

/-! ### Addresses beside other values -/

/-- The location of an address, with a layout or without. -/
def Value.handle? : Value → Option Nat
  | .address location => some location
  | .pointer _ location _ => some location
  | _ => none

theorem Value.equal_int_of_handle? {v : Value} {location : Nat} (h : v.handle? = some location)
    (n : Int) : v.equal (.int n) = true ↔ location = n.natAbs := by
  cases v <;> cases h <;> exact beq_iff_eq

theorem Value.equal_bool_of_handle? {v : Value} {location : Nat} (h : v.handle? = some location)
    (b : Bool) : v.equal (.bool b) = false := by
  cases v <;> cases h <;> rfl

theorem Value.equal_float_of_handle? {v : Value} {location : Nat} (h : v.handle? = some location)
    (x : Binary64) (tag : Option Nat) : v.equal (.float x tag) = false := by
  cases v <;> cases h <;> rfl

/-! ### Comparisons in scripts -/

namespace Expr

section Comparison

variable [Host] {options : Options} {s : Scope} {m : Machine} {left right : Expr} {v w : Value}

theorem eval_eq (hl : left.eval options s m = (.ok v, m))
    (hr : right.eval options s m = (.ok w, m)) :
    (eq left right).eval options s m = (.ok (.bool (v.equal w)), m) := by
  rw [eval, Effect.bind_of_ok hl, Effect.bind_of_ok hr]
  rfl

theorem eval_ne (hl : left.eval options s m = (.ok v, m))
    (hr : right.eval options s m = (.ok w, m)) :
    (ne left right).eval options s m = (.ok (.bool !v.equal w), m) := by
  rw [eval, Effect.bind_of_ok hl, Effect.bind_of_ok hr]
  rfl

/-- **Comparisons do not depend on the order.** The first value equals the second exactly
when the second equals the first, and being different is the opposite. An address, with a
layout or without, equals the whole numbers of its magnitude and no truth value or floating
point number; with a layout it equals what is its address and what is its layout. -/
theorem eval_comparison (hl : left.eval options s m = (.ok v, m))
    (hr : right.eval options s m = (.ok w, m)) (hv : v.namesOnce = true)
    (hw : w.namesOnce = true) :
    (eq left right).eval options s m = (.ok (.bool (v.equal w)), m) ∧
    (eq right left).eval options s m = (.ok (.bool (v.equal w)), m) ∧
    (ne left right).eval options s m = (.ok (.bool !v.equal w), m) ∧
    (ne right left).eval options s m = (.ok (.bool !v.equal w), m) ∧
    (∀ location n, v.handle? = some location → w = .int n →
      (v.equal w = true ↔ location = n.natAbs)) ∧
    (∀ location b, v.handle? = some location → w = .bool b → v.equal w = false) ∧
    (∀ location x tag, v.handle? = some location → w = .float x tag → v.equal w = false) ∧
    (∀ target location tag location', v = .pointer target location tag → w = .address location' →
      (v.equal w = true ↔ location = location')) ∧
    (∀ target location tag l, v = .pointer target location tag → w = .type l →
      v.equal w = target.equal l ∧ v.equal w = l.equal target) := by
  have hcomm := Value.equal_comm v w hv hw
  refine ⟨eval_eq hl hr, ?_, eval_ne hl hr, ?_, ?_, ?_, ?_, ?_, ?_⟩
  · rw [hcomm]
    exact eval_eq hr hl
  · rw [hcomm]
    exact eval_ne hr hl
  · rintro location n hlocation rfl
    exact Value.equal_int_of_handle? hlocation n
  · rintro location b hlocation rfl
    exact Value.equal_bool_of_handle? hlocation b
  · rintro location x tag hlocation rfl
    exact Value.equal_float_of_handle? hlocation x tag
  · rintro target location tag location' rfl rfl
    exact beq_iff_eq
  · rintro target location tag l rfl rfl
    exact ⟨rfl, hcomm⟩

end Comparison

/-- Records in another order, in one an address with a layout and a negative number, in the
other that layout and the number's magnitude as an address: they are equal from either side. -/
theorem eval_comparison_records :
    let v : Value := .array [.record
      [⟨"at", .pointer (.integer .int32) 16 none⟩, ⟨"n", .int (-4)⟩]]
    let w : Value := .array [.record [⟨"n", .address 4⟩, ⟨"at", .type (.integer .int32)⟩]]
    let s : Scope := ⟨[⟨"v", v⟩, ⟨"w", w⟩], [], 0⟩
    let m : Machine := ⟨{ bytes := [] }, []⟩
    (eq (var "v") (var "w")).eval {} s m = (.ok (.bool true), m) ∧
    (eq (var "w") (var "v")).eval {} s m = (.ok (.bool true), m) ∧
    (ne (var "v") (var "w")).eval {} s m = (.ok (.bool false), m) ∧
    (ne (var "w") (var "v")).eval {} s m = (.ok (.bool false), m) := by
  intro v w s m
  have hv : (var "v").eval {} s m = (.ok v, m) := rfl
  have hw : (var "w").eval {} s m = (.ok w, m) := rfl
  have hequal : v.equal w = true := by decide
  have h := eval_comparison hv hw (by decide) (by decide)
  rw [hequal] at h
  exact ⟨h.1, h.2.1, h.2.2.1, h.2.2.2.1⟩

end Expr

end TypedMemory
