import TypedMemory.Proofs.Value
import TypedMemory.Script.Functions

/-!
# Layouts that functions and operators give

The functions, members, indices and operators of scripts take values apart and put them
together again, and of layouts they make texts, pointers and collections. They make no
struct. So a condition on parts that **concerns structs** alone holds of what they give if it
holds of what they are given, one theorem for each of them.
-/

namespace TypedMemory

/-- A condition on parts that concerns structs, and perhaps what was put in the place of a
layout, but does not look at tags. -/
structure Layout.ConcernsStructs (p : Layout → Bool) : Prop where
  other : ∀ l, l.isStruct = false → l.isForeign = false → p l = true
  tagged : ∀ l n, p l = true → p (l.tagged n).1 = true

variable {p : Layout → Bool}

/-! ### Results of functions -/

/-- The result, if there is one, has nothing but parts of which the condition holds. -/
def Value.EveryResult (p : Layout → Bool) (r : Except Error Value) : Prop :=
  ∀ v, r = .ok v → v.everyPart p = true

namespace Value.EveryResult

theorem ok {v : Value} (h : v.everyPart p = true) : EveryResult p (.ok v) := by
  intro w hw
  cases hw
  exact h

theorem error (e : Error) : EveryResult p (.error e) := nofun

theorem refuse (cause : EvaluationCause) : EveryResult p (Value.refuse cause) := nofun

theorem bind {α : Type} {r : Except Error α} {f : α → Except Error Value}
    (h : ∀ a, r = .ok a → EveryResult p (f a)) : EveryResult p (r >>= f) := by
  cases r with
  | error e => exact error e
  | ok a => exact h a rfl

theorem map {α : Type} {r : Except Error α} {f : α → Value}
    (h : ∀ a, r = .ok a → (f a).everyPart p = true) : EveryResult p (r.map f) := by
  cases r with
  | error e => exact error e
  | ok a => exact ok (h a rfl)

end Value.EveryResult

namespace Value

open EveryResult

variable [Host]

theorem everyPart_of_expectLayout {what : Text} {v : Value} {l : Layout}
    (h : v.expectLayout what = .ok l) (hv : v.everyPart p = true) : l.everyPart p = true := by
  cases v with
  | type k =>
    cases h
    exact hv
  | _ => cases h

theorem Unary.everyResult_apply (hp : Layout.ConcernsStructs p) (f : Unary) {v : Value}
    (hv : v.everyPart p = true) : EveryResult p (f.apply v) := by
  cases f with
  | address => exact .bind fun n _ => .ok rfl
  | text => exact .bind fun n _ => .ok (hp.other _ rfl rfl)
  | wideText => exact .bind fun n _ => .ok (hp.other _ rfl rfl)
  | pointerType width =>
    refine .bind fun inner hinner => .ok (everyPart_type.mpr (Layout.everyPart_pointer.mpr ?_))
    exact ⟨hp.other _ rfl rfl, everyPart_of_expectLayout hinner hv⟩
  | struct =>
    cases v with
    | type l =>
      cases l with
      | struct fields => exact .ok hv
      | _ => exact .refuse _
    | _ => exact .refuse _
  | size => exact .bind fun l _ => .bind fun n _ => .ok rfl
  | toText => exact .map fun t _ => rfl

theorem Binary.everyResult_apply (hp : Layout.ConcernsStructs p) (f : Binary) {v w : Value}
    (hv : v.everyPart p = true) : EveryResult p (f.apply v w) := by
  cases f with
  | pointer =>
    refine .bind fun target htarget => .bind fun location _ => .ok (everyPart_pointer.mpr ?_)
    exact everyPart_of_expectLayout htarget hv
  | collection =>
    refine .bind fun element helement => .bind fun count _ =>
      .ok (everyPart_type.mpr (Layout.everyPart_collection.mpr ?_))
    exact ⟨hp.other _ rfl rfl, everyPart_of_expectLayout helement hv⟩

/-- **Calls of functions.** -/
theorem everyResult_call (hp : Layout.ConcernsStructs p) (name : Text) {arguments : List Value}
    (h : ∀ v ∈ arguments, v.everyPart p = true) : EveryResult p (call name arguments) := by
  rw [call]
  split
  · exact .refuse _
  · split
    · exact Unary.everyResult_apply hp _ (h _ List.mem_cons_self)
    · exact .refuse _
  · split
    · exact Binary.everyResult_apply hp _ (h _ List.mem_cons_self)
    · exact .refuse _

/-! ### Members and indices -/

theorem everyResult_layoutMember {l : Layout} (h : l.everyPart p = true) (name : Text) :
    EveryResult p (layoutMember l name) := by
  rw [layoutMember]
  split
  · exact .map fun n _ => rfl
  · split
    · exact .ok rfl
    · split
      · refine .ok ?_
        split
        · exact h
        · rfl
      · exact .refuse _

/-- **Members.** -/
theorem everyResult_member {v : Value} (h : v.everyPart p = true) (name : Text) :
    EveryResult p (v.member name) := by
  rw [member.eq_def]
  split
  · split
    case h_1 hv => exact .ok (everyPart_of_lookup? (everyPart_record.mp h) hv)
    case h_2 => exact .refuse _
  · split
    · exact .ok rfl
    · split
      · exact .ok (Layout.everyPart_toValue (everyPart_pointer.mp h))
      · exact .refuse _
  · split
    · exact .ok rfl
    · exact .refuse _
  · exact everyResult_layoutMember h name
  · exact .refuse _

omit [Host] in
theorem everyResult_item {items : List Value} (h : ∀ v ∈ items, v.everyPart p = true)
    (index : Int) : EveryResult p (item items index) := by
  rw [item]
  generalize (if index < 0 then index + (items.length : Int) else index) = place
  split
  case h_1 v hv =>
    split at hv
    · cases hv
    · exact .ok (h v (List.mem_of_getElem? hv))
  case h_2 => exact .refuse _

theorem everyResult_entry {entries : List (Entry Value)}
    (h : ∀ e ∈ entries, e.value.everyPart p = true) (key : Value) :
    EveryResult p (entry entries key) := by
  rw [entry.eq_def]
  split
  · split
    case h_1 hv => exact .ok (everyPart_of_lookup? h hv)
    case h_2 => exact .refuse _
  · split
    · exact .bind fun shown _ => .refuse _
    · exact .error _

/-- **Parts by index or key.** -/
theorem everyResult_part {v : Value} (h : v.everyPart p = true) (key : Value) :
    EveryResult p (v.part key) := by
  rw [part.eq_def]
  split
  · exact .bind fun index _ => everyResult_item (everyPart_array.mp h) index
  · exact everyResult_entry (everyPart_record.mp h) key
  · exact .refuse _

/-! ### Operators -/

theorem everyResult_negate (v : Value) : EveryResult p v.negate := by
  cases v with
  | int n => exact .ok rfl
  | float x tag => exact .ok rfl
  | _ => exact .refuse _

omit [Host] in
theorem everyResult_plus {v : Value} (h : v.everyPart p = true) (w : Value) :
    EveryResult p (v.plus w) := by
  rw [plus.eq_def]
  split
  · split
    case h_1 moved hmoved =>
      refine .ok ?_
      cases v with
      | address location =>
        cases hmoved
        rfl
      | pointer target location tag =>
        cases hmoved
        exact h
      | _ => cases hmoved
    case h_2 => exact .error _
  · exact .error _

/-- **Sums.** An array may hold layouts, and so may the pointer that is moved. -/
theorem everyResult_add {v w : Value} (hv : v.everyPart p = true) (hw : w.everyPart p = true) :
    EveryResult p (v.add w) := by
  rw [add.eq_def]
  split
  · exact everyResult_plus hv _
  · exact everyResult_plus hv _
  · exact .ok rfl
  · exact .bind fun x _ => .ok rfl
  · exact .bind fun x _ => .ok rfl
  · exact .ok rfl
  · exact .ok rfl
  · refine .ok (everyPart_array.mpr fun u hu => ?_)
    rcases List.mem_append.mp hu with hu | hu
    · exact everyPart_array.mp hv u hu
    · exact everyPart_array.mp hw u hu
  · exact .refuse _

theorem everyResult_sub (v w : Value) : EveryResult p (v.sub w) := by
  rw [sub.eq_def]
  split
  · exact .ok rfl
  · exact .bind fun x _ => .ok rfl
  · exact .bind fun x _ => .ok rfl
  · exact .ok rfl
  · exact .refuse _

end Value

end TypedMemory
