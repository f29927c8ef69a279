import TypedMemory.Proofs.ByteOrder
import TypedMemory.Proofs.Layout

/-!
# The values that fit a layout

Checking and writing go down a layout and a value side by side. What both of them follow is
one relation, `TypedMemory.Codec.Fits`: a leaf has bytes for the value, a pointer leaves the
matter to what it points to, a record has an entry for every field of a struct, and an array
has as many items as the collection. A value passes the check exactly when it fits
(`TypedMemory.Codec.check_eq_ok_iff`), so what holds of every value that was checked is
proved by induction on `Fits`.

The bytes of a leaf are `TypedMemory.Codec.leafBytes?`. They fill the slot: what a text
leaves free is filled with zeros already.
-/

namespace TypedMemory.Codec

variable {options : Options}

/-! ### Stored numbers -/

theorem cast_wrapped (width : Nat) (n : Int) :
    (wrapped width n : Int) = n % (wordCount (8 * width) : Nat) := by
  have hpos := wordCount_pos (8 * width)
  rw [wrapped, Int.toNat_of_nonneg]
  exact Int.emod_nonneg n (by omega)

theorem wrapped_lt (width : Nat) (n : Int) : wrapped width n < wordCount (8 * width) := by
  have hpos := wordCount_pos (8 * width)
  have h := cast_wrapped width n
  have hlt := Int.emod_lt_of_pos n (show (0 : Int) < (wordCount (8 * width) : Nat) by omega)
  omega

/-- The code that a floating point number has in a slot, if it is in range there. -/
def floatCode? (kind : FloatKind) (x : Binary64) : Option Nat :=
  match kind with
  | .fp64 => some x.bits.toNat
  | .fp32 => x.toSingle?

/-- The code that a number has in a floating point slot. A whole number is rounded to 64 bits
first, whatever the slot. -/
def numberCode? (kind : FloatKind) : Value → Option Nat
  | .int n => (Binary64.ofInt? n).bind (floatCode? kind)
  | .float x _ => floatCode? kind x
  | _ => none

theorem floatBytes_eq_ok_iff {order : ByteOrder} {kind : FloatKind} {x : Binary64}
    {data : Bytes} : floatBytes order kind x = .ok data ↔
      ∃ code, floatCode? kind x = some code ∧ order.store kind.width code = data := by
  cases kind with
  | fp64 => simp [floatBytes, floatCode?, FloatKind.width]
  | fp32 => cases h : x.toSingle? <;> simp [floatBytes, floatCode?, FloatKind.width, h, Error.fail]

theorem integerAsFloatBytes_eq_ok_iff {order : ByteOrder} {kind : FloatKind} {n : Int}
    {data : Bytes} : integerAsFloatBytes order kind n = .ok data ↔
      ∃ code, numberCode? kind (.int n) = some code ∧ order.store kind.width code = data := by
  cases hn : Binary64.ofInt? n with
  | none => simp [integerAsFloatBytes, numberCode?, hn, Error.fail]
  | some x =>
    cases kind with
    | fp64 => simp [integerAsFloatBytes, numberCode?, floatCode?, FloatKind.width, hn]
    | fp32 =>
      cases h : x.toSingle? <;>
        simp [integerAsFloatBytes, numberCode?, floatCode?, FloatKind.width, hn, h, Error.fail]

/-! ### Checks in a row -/

theorem forM_eq_ok_iff {α : Type} {f : α → Except Error Unit} {items : List α} :
    items.forM f = .ok () ↔ ∀ v ∈ items, f v = .ok () := by
  induction items with
  | nil => simp [pure, Except.pure]
  | cons v rest ih =>
    rw [List.forall_mem_cons, ← ih]
    change (f v >>= fun _ => rest.forM f) = .ok () ↔ _
    cases h : f v <;> simp [bind, Except.bind]

theorem map_eq_ok_iff {α : Type} {r : Except Error α} :
    (r.map fun _ => ()) = .ok () ↔ ∃ a, r = .ok a := by
  cases r <;> simp [Except.map]

/-! ### The bytes of a leaf -/

variable [Host]

/-- The coded text with zeros behind it, if the slot holds that many bytes. -/
def textBytes? (encoding : Option Text) (holds : Nat) (t : Text) : Option Bytes :=
  match encodeText encoding t with
  | .ok coded =>
    if coded.length ≤ holds then some (coded ++ List.replicate (holds - coded.length) 0) else none
  | .error _ => none

/-- **The bytes that a value has in the slot of a leaf**, as many as the slot holds. -/
def leafBytes? (options : Options) : Layout → Value → Option Bytes
  | .integer kind, .int n =>
    some (options.byteOrder.store kind.width (wrapped kind.width n))
  | .float kind, v => (numberCode? kind v).map (options.byteOrder.store kind.width)
  | .rawAddress width, .int n =>
    some (options.byteOrder.store width.bytes (wrapped width.bytes n))
  | .rawAddress width, .address n =>
    some (options.byteOrder.store width.bytes (wrapped width.bytes n))
  | .text length, .text t => textBytes? options.textEncoding length t
  | .wideText length, .text t => textBytes? options.wideTextEncoding (length * 2) t
  | _, _ => none

theorem textBytes?_eq_some_iff {encoding : Option Text} {holds : Nat} {t : Text} {bytes : Bytes} :
    textBytes? encoding holds t = some bytes ↔ ∃ coded, encodeText encoding t = .ok coded ∧
      coded.length ≤ holds ∧ coded ++ List.replicate (holds - coded.length) 0 = bytes := by
  cases h : encodeText encoding t <;> simp [textBytes?, h]

theorem length_of_textBytes? {encoding : Option Text} {holds : Nat} {t : Text} {bytes : Bytes}
    (h : textBytes? encoding holds t = some bytes) : bytes.length = holds := by
  obtain ⟨coded, -, hle, rfl⟩ := textBytes?_eq_some_iff.mp h
  rw [List.length_append, List.length_replicate]
  omega

theorem length_of_leafBytes? {l : Layout} {v : Value} {bytes : Bytes}
    (h : leafBytes? options l v = some bytes) : bytes.length = l.size := by
  unfold leafBytes? at h
  split at h
  case h_2 =>
    obtain ⟨code, -, rfl⟩ := Option.map_eq_some_iff.mp h
    exact ByteOrder.length_store _ _ _
  case h_5 => exact length_of_textBytes? h
  case h_6 => exact length_of_textBytes? h
  case h_7 => cases h
  all_goals
    cases h
    exact ByteOrder.length_store _ _ _

/-! ### What fits -/

/-- **A value fits a layout.** -/
inductive Fits (options : Options) : Layout → Value → Prop
  | leaf {l : Layout} {v : Value} {bytes : Bytes} (h : leafBytes? options l v = some bytes) :
      Fits options l v
  | pointer {width : AddressWidth} {inner : Layout} {v : Value} (h : Fits options inner v) :
      Fits options (.pointer width inner) v
  | struct {fields : List (Field Layout)} {entries : List (Entry Value)}
      (present : ∀ f ∈ fields, ∃ v, Value.lookup? entries f.name = some v)
      (each : ∀ f ∈ fields, ∀ v, Value.lookup? entries f.name = some v → Fits options f.type v) :
      Fits options (.struct fields) (.record entries)
  | collection {element : Layout} {items : List Value}
      (each : ∀ v ∈ items, Fits options element v) :
      Fits options (.collection element items.length) (.array items)

theorem checkText_eq_ok_iff {encoding : Option Text} {slot : Text} {holds : Nat} {t : Text} :
    checkText encoding slot holds t = .ok () ↔
      ∃ bytes, textBytes? encoding holds t = some bytes := by
  cases h : encodeText encoding t with
  | error e => simp [checkText, textBytes?, h, bind, Except.bind]
  | ok coded =>
    by_cases hlt : holds < coded.length
    · simp [checkText, textBytes?, h, hlt, bind, Except.bind, Error.fail, Nat.not_le.mpr hlt]
    · simp [checkText, textBytes?, h, hlt, bind, Except.bind, Nat.not_lt.mp hlt, pure, Except.pure]

theorem checkFields_eq_ok_iff {fields : List (Field Layout)} {entries : List (Entry Value)} :
    check.checkFields options fields entries = .ok () ↔ ∀ f ∈ fields, ∃ v,
      Value.lookup? entries f.name = some v ∧ check options f.type v = .ok () := by
  induction fields with
  | nil => simp [check.checkFields]
  | cons f rest ih =>
    rw [List.forall_mem_cons, check.checkFields, ← ih]
    cases Value.lookup? entries f.name with
    | none => simp [Error.fail]
    | some v => cases h : check options f.type v <;> simp [h, bind, Except.bind]

/-- A leaf passes the check exactly when there are bytes for it. -/
theorem check_leaf_iff {l : Layout} (hl : l.isLeaf = true) {v : Value} :
    check options l v = .ok () ↔ ∃ bytes, leafBytes? options l v = some bytes := by
  cases l with
  | integer kind => cases v <;> simp [check, leafBytes?, Error.fail]
  | float kind =>
    cases v with
    | int n =>
      rw [check, map_eq_ok_iff]
      simp only [integerAsFloatBytes_eq_ok_iff, leafBytes?, Option.map_eq_some_iff]
    | float x tag =>
      rw [check, map_eq_ok_iff]
      simp only [floatBytes_eq_ok_iff, leafBytes?, numberCode?, Option.map_eq_some_iff]
    | _ => simp [check, leafBytes?, Error.fail, numberCode?]
  | rawAddress width => cases v <;> simp [check, leafBytes?, Error.fail]
  | text length =>
    cases v with
    | text t => exact checkText_eq_ok_iff
    | _ => simp [check, leafBytes?, Error.fail]
  | wideText length =>
    cases v with
    | text t => exact checkText_eq_ok_iff
    | _ => simp [check, leafBytes?, Error.fail]
  | _ => cases hl

theorem isLeaf_of_leafBytes? {l : Layout} {v : Value} {bytes : Bytes}
    (h : leafBytes? options l v = some bytes) : l.isLeaf = true := by
  cases l <;> first | rfl | cases h

/-- A leaf is one slot, as long as the bytes that are stored in it. -/
theorem slots_of_leafBytes? {l : Layout} {v : Value} {bytes : Bytes}
    (h : leafBytes? options l v = some bytes) (address : Int) :
    l.slots address = [⟨address, bytes.length⟩] := by
  have hl := isLeaf_of_leafBytes? h
  rw [length_of_leafBytes? h]
  cases l <;> first | rfl | cases hl

/-- **A value passes the check exactly when it fits.** -/
theorem check_eq_ok_iff {l : Layout} {v : Value} :
    check options l v = .ok () ↔ Fits options l v := by
  constructor
  · intro h
    induction l generalizing v with
    | pointer width inner ih => exact .pointer (ih h)
    | struct fields ih =>
      cases v with
      | record entries =>
        have hfields := checkFields_eq_ok_iff.mp h
        refine .struct (fun f hf => ?_) (fun f hf v hv => ?_)
        · obtain ⟨v, hv, -⟩ := hfields f hf
          exact ⟨v, hv⟩
        · obtain ⟨w, hw, hcheck⟩ := hfields f hf
          cases hv.symm.trans hw
          exact ih f hf hcheck
      | _ => simp [check, Error.fail] at h
    | collection element count ih =>
      cases v with
      | array items =>
        rw [check] at h
        split at h
        case isTrue hlen =>
          subst hlen
          exact .collection fun v hv => ih (forM_eq_ok_iff.mp h v hv)
        case isFalse => cases h
      | _ => simp [check, Error.fail] at h
    | foreign w => simp [check] at h
    | _ =>
      obtain ⟨bytes, hbytes⟩ := (check_leaf_iff rfl).mp h
      exact .leaf hbytes
  · intro h
    induction h with
    | leaf h => exact (check_leaf_iff (isLeaf_of_leafBytes? h)).mpr ⟨_, h⟩
    | pointer _ ih => exact ih
    | struct present _ ih =>
      refine checkFields_eq_ok_iff.mpr fun f hf => ?_
      obtain ⟨v, hv⟩ := present f hf
      exact ⟨v, hv, ih f hf v hv⟩
    | collection _ ih =>
      rw [check, if_pos rfl]
      exact forM_eq_ok_iff.mpr ih

end TypedMemory.Codec
