import Mathlib.Data.List.Sort
import TypedMemory.Proofs.Struct

/-!
# Structs in the making and structs as a whole

A struct can be made of placements all at once, or by a builder that takes them one at a time and
goes on where one is refused. They agree (`TypedMemory.StructBuilder.build_attempts`): with the
policy of replacing, the builder makes the struct of all placements, and with that of refusing,
the struct of the first one at each offset.

A row of placements that ascend is known by what it has at each offset
(`TypedMemory.Placement.Ascending.ext`), and what inserting does to that is one equation
(`TypedMemory.Placement.find?_insert`). So to arrange placements is to keep the last one at each
offset, and it makes no difference how those at other offsets are mixed with them.
-/

namespace TypedMemory

namespace Placement

variable {p r : Placement} {placed placed' placements other : List Placement}

/-! ### What is at an offset -/

theorem find?_insert (p : Placement) (placed : List Placement) (offset : Int) :
    (p.insert placed).find? (·.offset = offset) =
      if p.offset = offset then some p else placed.find? (·.offset = offset) := by
  induction placed with
  | nil => by_cases hp : p.offset = offset <;> simp [insert, hp]
  | cons q rest ih =>
    rw [insert]
    split
    case isTrue hlt => by_cases hp : p.offset = offset <;> simp [List.find?_cons, hp]
    case isFalse hge =>
      split
      case isTrue heq => by_cases hp : p.offset = offset <;> simp [hp, ← heq]
      case isFalse hne =>
        rw [List.find?_cons, List.find?_cons, ih]
        by_cases hp : p.offset = offset
        · have hq : q.offset ≠ offset := fun hq => hne (hp.trans hq.symm)
          simp [hp, hq]
        · simp [hp]

/-- **The last placement at an offset** is what is there in the end. -/
theorem find?_arrange (placements : List Placement) (offset : Int) :
    (arrange placements).find? (·.offset = offset) =
      (placements.filter (·.offset = offset)).getLast? := by
  induction placements using List.reverseRecOn with
  | nil => rfl
  | append_singleton rest p ih =>
    rw [arrange_concat, find?_insert, ih, List.filter_append]
    by_cases hp : p.offset = offset <;> simp [hp]

theorem exists_mem_arrange (h : p ∈ placements) :
    ∃ r ∈ arrange placements, r.offset = p.offset := by
  have hsome : ((arrange placements).find? (·.offset = p.offset)).isSome = true := by
    rw [find?_arrange, List.getLast?_isSome]
    exact List.ne_nil_of_mem (List.mem_filter.mpr ⟨h, by simp⟩)
  simpa using hsome

theorem Ascending.find?_eq_some_iff (h : Ascending placed) :
    placed.find? (·.offset = r.offset) = some r ↔ r ∈ placed := by
  refine ⟨List.mem_of_find?_eq_some, fun hr => ?_⟩
  obtain ⟨front, back, rfl⟩ := List.append_of_mem hr
  refine List.find?_eq_some_iff_append.mpr ⟨by simp, front, back, rfl, fun q hq => ?_⟩
  have hlt := (List.pairwise_append.mp h).2.2 q hq r List.mem_cons_self
  simp only [Bool.not_eq_true', decide_eq_false_iff_not]
  omega

/-- **Placements that ascend** are known by what is at each offset. -/
theorem Ascending.ext (h : Ascending placed) (h' : Ascending placed')
    (hfind : ∀ offset, placed.find? (·.offset = offset) = placed'.find? (·.offset = offset)) :
    placed = placed' := by
  have hirrefl : Std.Irrefl fun q r : Placement => q.offset < r.offset :=
    ⟨fun _ => Int.lt_irrefl _⟩
  refine List.Pairwise.eq_of_mem_iff h h' fun r => ?_
  rw [← h.find?_eq_some_iff, ← h'.find?_eq_some_iff, hfind]

/-- It makes no difference in what order placements at different offsets come. -/
theorem arrange_congr (h : ∀ offset, other.filter (·.offset = offset) =
    placements.filter (·.offset = offset)) : arrange other = arrange placements := by
  refine (ascending_arrange other).ext (ascending_arrange placements) fun offset => ?_
  rw [find?_arrange, find?_arrange, h]

theorem arrange_of_ascending (h : Ascending placed) : arrange placed = placed := by
  have hle : placed.Pairwise fun p q => p.offset ≤ q.offset := h.imp fun hlt => Int.le_of_lt hlt
  have hne : placed.Pairwise fun p q => p.offset ≠ q.offset := h.imp fun hlt => Int.ne_of_lt hlt
  rw [arrange_eq_lastAtOffset hle, lastAtOffset_of_ne hne]

/-- Where all offsets are different, those at one offset are in no order that could change. -/
theorem filter_offset_of_perm (hperm : other.Perm placements)
    (hne : StructBuilder.OffsetsDiffer placements) (offset : Int) :
    other.filter (·.offset = offset) = placements.filter (·.offset = offset) := by
  have hfilter : (other.filter (·.offset = offset)).Perm
      (placements.filter (·.offset = offset)) := hperm.filter _
  have hsame : ∀ q ∈ placements.filter (·.offset = offset), q.offset = offset := fun q hq => by
    simpa using (List.mem_filter.mp hq).2
  have hapart : StructBuilder.OffsetsDiffer (placements.filter (·.offset = offset)) :=
    hne.sublist List.filter_sublist
  revert hfilter hsame hapart
  generalize placements.filter (·.offset = offset) = row
  intro hfilter hsame hapart
  -- Placements all at one offset, no two at the same one: there is one at most.
  match row with
  | [] => exact hfilter.eq_nil
  | [q] => exact hfilter.eq_singleton
  | q :: r :: rest =>
    rw [List.forall_mem_cons, List.forall_mem_cons] at hsame
    exact absurd (hsame.1.trans hsame.2.1.symm)
      ((List.pairwise_cons.mp hapart).1 r List.mem_cons_self)

/-- A field of a struct, asked for where it is. -/
def ofField (f : Field Layout) : Placement := ⟨f.offset, f.name, f.type⟩

theorem ofField_field (h : 0 ≤ p.offset) : ofField p.field = p := by
  rw [ofField, field, Int.toNat_of_nonneg h]

/-! ### The first one at each offset -/

/-- **The placements that no earlier one precedes** at the same offset. -/
def firstAtOffset : List Placement → List Placement
  | [] => []
  | p :: rest => p :: (firstAtOffset rest).filter (·.offset ≠ p.offset)

theorem filter_firstAtOffset (placements : List Placement) (offset : Int) :
    (firstAtOffset placements).filter (·.offset = offset) =
      (placements.find? (·.offset = offset)).toList := by
  induction placements with
  | nil => rfl
  | cons p rest ih =>
    rw [firstAtOffset, List.filter_cons, List.filter_filter, List.find?_cons]
    by_cases hp : p.offset = offset
    · simp [hp]
    · have hfilter : ∀ q : Placement, (decide (q.offset = offset) &&
          decide (q.offset ≠ p.offset)) = decide (q.offset = offset) := fun q => by
        by_cases hq : q.offset = offset <;> simp [hq, Ne.symm hp]
      simp only [hp, decide_false, Bool.false_eq_true, if_false, hfilter, ih]

/-- One more placement behind the others is the first at its offset if there is none yet. -/
theorem firstAtOffset_concat (placements : List Placement) (p : Placement) :
    firstAtOffset (placements ++ [p]) =
      match placements.find? (·.offset = p.offset) with
      | none => firstAtOffset placements ++ [p]
      | some _ => firstAtOffset placements := by
  induction placements with
  | nil => rfl
  | cons q rest ih =>
    rw [List.cons_append, firstAtOffset, ih, List.find?_cons]
    by_cases hq : q.offset = p.offset
    · rw [decide_eq_true hq]
      cases rest.find? (·.offset = p.offset) <;> simp [firstAtOffset, hq]
    · rw [decide_eq_false hq]
      cases rest.find? (·.offset = p.offset) <;> simp [firstAtOffset, Ne.symm hq]

theorem find?_arrange_firstAtOffset (placements : List Placement) (offset : Int) :
    (arrange (firstAtOffset placements)).find? (·.offset = offset) =
      placements.find? (·.offset = offset) := by
  rw [find?_arrange, filter_firstAtOffset]
  cases placements.find? (·.offset = offset) <;> rfl

theorem mem_of_mem_firstAtOffset (h : p ∈ firstAtOffset placements) : p ∈ placements := by
  have hfilter : p ∈ (firstAtOffset placements).filter (·.offset = p.offset) :=
    List.mem_filter.mpr ⟨h, by simp⟩
  rw [filter_firstAtOffset, Option.mem_toList] at hfilter
  exact List.mem_of_find?_eq_some hfilter

theorem exists_mem_firstAtOffset (h : p ∈ placements) :
    ∃ r ∈ firstAtOffset placements, r.offset = p.offset := by
  obtain ⟨r, hr⟩ : ∃ r, placements.find? (·.offset = p.offset) = some r :=
    Option.isSome_iff_exists.mp (List.find?_isSome.mpr ⟨p, h, by simp⟩)
  have hfilter : r ∈ (firstAtOffset placements).filter (·.offset = p.offset) := by
    rw [filter_firstAtOffset, hr]
    exact List.mem_singleton_self r
  exact ⟨r, (List.mem_filter.mp hfilter).1, by simpa using (List.mem_filter.mp hfilter).2⟩

end Placement

/-! ### Structs as a whole -/

namespace Layout

open Placement (arrange firstAtOffset)

variable {placements other placed : List Placement} {l : Layout}

/-- **A struct with given fields**: they ascend, and at each offset is the one that is given
there. -/
structure IsPlaced (l : Layout) (given? : Int → Option Placement) : Prop where
  isStruct : l.isStruct = true
  ascending : l.fields.Pairwise fun f g => f.offset < g.offset
  fieldAt?_eq : ∀ offset, l.fieldAt? offset = (given? offset).map Placement.field

theorem isPlaced_of_ofPlacements (h : ofPlacements placements = .ok l) :
    l.IsPlaced fun offset => (placements.filter (·.offset = offset)).getLast? := by
  have hascending := ascending_of_ofPlacements h
  obtain ⟨hnatural, rfl⟩ := exists_of_ofArranged h
  refine ⟨rfl, hascending, fun offset => ?_⟩
  have hoffset : ∀ p ∈ arrange placements, ((p.field.offset : Int) = offset ↔ p.offset = offset) :=
    fun p hp => by rw [Placement.field, Int.toNat_of_nonneg (hnatural p hp)]
  rw [fieldAt?, fields, List.find?_map, ← Placement.find?_arrange]
  congr 1
  generalize arrange placements = placed at hoffset
  induction placed with
  | nil => rfl
  | cons p rest ih =>
    rw [List.forall_mem_cons] at hoffset
    rw [List.find?_cons, List.find?_cons, ih hoffset.2]
    simp only [Function.comp_apply, hoffset.1]

/-- What fails is the lowest offset, if it is negative. -/
theorem ofPlacements_eq_error_iff {e : Error} : ofPlacements placements = .error e ↔
    ∃ p ∈ placements, p.offset < 0 ∧ (∀ q ∈ placements, p.offset ≤ q.offset) ∧
      e = (Error.invalid (.negative "Field offset" p.offset)).raised := by
  have hlowest : ∀ e, ofPlacements placements = .error e →
      ∃ p ∈ placements, p.offset < 0 ∧ (∀ q ∈ placements, p.offset ≤ q.offset) ∧
        e = (Error.invalid (.negative "Field offset" p.offset)).raised := by
    intro e he
    rw [ofPlacements, ofArranged] at he
    split at he
    case h_2 => cases he
    case h_1 p hp =>
      obtain ⟨hneg, front, back, hsplit, hfront⟩ := List.find?_eq_some_iff_append.mp hp
      have hmem := Placement.mem_of_mem_arrange (List.mem_of_find?_eq_some hp)
      refine ⟨p, hmem, by simpa using hneg, fun q hq => ?_, (Except.error.inj he).symm⟩
      -- Those before the first that is negative are not, and those behind it are higher.
      have hbehind := List.pairwise_append.mp (hsplit ▸ Placement.ascending_arrange placements)
      obtain ⟨r, hr, hoffset⟩ := Placement.exists_mem_arrange hq
      rw [hsplit, List.mem_append, List.mem_cons] at hr
      rw [decide_eq_true_eq] at hneg
      rcases hr with hr | rfl | hr
      · have hr' := hfront r hr
        simp only [Bool.not_eq_true', decide_eq_false_iff_not] at hr'
        omega
      · omega
      · have hr' := (List.pairwise_cons.mp hbehind.2.1).1 r hr
        omega
  refine ⟨hlowest e, ?_⟩
  rintro ⟨p, hp, hneg, hle, rfl⟩
  cases hmade : ofPlacements placements with
  | ok l =>
    obtain ⟨r, hr, hoffset⟩ := Placement.exists_mem_arrange hp
    have hr' := (exists_of_ofArranged hmade).1 r hr
    omega
  | error e =>
    obtain ⟨q, hq, -, hle', rfl⟩ := hlowest e hmade
    rw [Int.le_antisymm (hle q hq) (hle' p hp)]

/-- The first ones at each offset have the same offsets, so they fail alike. -/
theorem ofPlacements_firstAtOffset_eq_error_iff {e : Error} :
    ofPlacements (firstAtOffset placements) = .error e ↔ ofPlacements placements = .error e := by
  rw [ofPlacements_eq_error_iff, ofPlacements_eq_error_iff]
  constructor
  · rintro ⟨p, hp, hneg, hle, rfl⟩
    refine ⟨p, Placement.mem_of_mem_firstAtOffset hp, hneg, fun q hq => ?_, rfl⟩
    obtain ⟨r, hr, hoffset⟩ := Placement.exists_mem_firstAtOffset hq
    exact hoffset ▸ hle r hr
  · rintro ⟨p, hp, hneg, hle, rfl⟩
    obtain ⟨r, hr, hoffset⟩ := Placement.exists_mem_firstAtOffset hp
    rw [← hoffset] at hneg hle ⊢
    exact ⟨r, hr, hneg, fun q hq => hle q (Placement.mem_of_mem_firstAtOffset hq), rfl⟩

/-- A struct of the first placements has the first one at each offset. -/
theorem isPlaced_of_ofPlacements_firstAtOffset
    (h : ofPlacements (firstAtOffset placements) = .ok l) :
    l.IsPlaced fun offset => placements.find? (·.offset = offset) := by
  have hplaced := isPlaced_of_ofPlacements h
  refine ⟨hplaced.isStruct, hplaced.ascending, fun offset => ?_⟩
  rw [hplaced.fieldAt?_eq, ← Placement.find?_arrange, Placement.find?_arrange_firstAtOffset]

/-- **A struct does not hang on the order** of placements at different offsets. -/
theorem ofPlacements_congr {other : List Placement} (h : ∀ offset,
    other.filter (·.offset = offset) = placements.filter (·.offset = offset)) :
    ofPlacements other = ofPlacements placements := by
  rw [ofPlacements, Placement.arrange_congr h, ofPlacements]

/-- **A struct made of its own fields** is the same struct. -/
theorem ofPlacements_fields (h : ofPlacements placements = .ok l) :
    ofPlacements (l.fields.map Placement.ofField) = .ok l := by
  obtain ⟨hnatural, hl⟩ := exists_of_ofArranged h
  have hfields : l.fields.map Placement.ofField = arrange placements := by
    rw [hl, fields, List.map_map]
    refine (List.map_congr_left fun p hp => ?_).trans (List.map_id _)
    exact Placement.ofField_field (hnatural p hp)
  rw [hfields, ofPlacements, Placement.arrange_of_ascending (Placement.ascending_arrange _)]
  exact h

end Layout

/-! ### Structs in the making -/

namespace StructBuilder

open Placement (arrange firstAtOffset)

variable {b : StructBuilder}

/-- What an attempt to insert leaves: the builder with one more field, or, where the field is
refused, the builder as it was. -/
def attempt (b : StructBuilder) (p : Placement) : StructBuilder :=
  match b.insert p with
  | .ok b' => b'
  | .error _ => b

/-- What a row of attempts leaves. -/
def attempts (b : StructBuilder) (placements : List Placement) : StructBuilder :=
  placements.foldl attempt b

theorem attempts_concat (b : StructBuilder) (placements : List Placement) (p : Placement) :
    b.attempts (placements ++ [p]) = (b.attempts placements).attempt p :=
  List.foldl_append

theorem attempt_of_ok {b' : StructBuilder} {p : Placement} (h : b.insert p = .ok b') :
    b.attempt p = b' := by
  rw [attempt, h]

theorem attempt_of_error {e : Error} {p : Placement} (h : b.insert p = .error e) :
    b.attempt p = b := by
  rw [attempt, h]

/-- With the policy of replacing all placements are arranged. -/
theorem attempts_replace (placements : List Placement) :
    (empty .replace).attempts placements = ⟨.replace, arrange placements⟩ := by
  induction placements using List.reverseRecOn with
  | nil => rfl
  | append_singleton rest p ih =>
    rw [attempts_concat, ih, Placement.arrange_concat]
    exact attempt_of_ok (insert_eq_ok nofun)

/-- With the policy of refusing the first ones are, at each offset. -/
theorem attempts_reject (placements : List Placement) :
    (empty .reject).attempts placements = ⟨.reject, arrange (firstAtOffset placements)⟩ := by
  induction placements using List.reverseRecOn with
  | nil => rfl
  | append_singleton rest p ih =>
    have hat := Placement.find?_arrange_firstAtOffset rest p.offset
    rw [attempts_concat, ih, Placement.firstAtOffset_concat]
    cases hfind : rest.find? (·.offset = p.offset) with
    | none =>
      rw [Placement.arrange_concat]
      exact attempt_of_ok (insert_eq_ok fun _ => hat.trans hfind)
    | some old => exact attempt_of_error (insert_eq_error_iff.mpr ⟨rfl, old, hat.trans hfind, rfl⟩)

/-- What is at an offset is what was inserted there first. -/
theorem at?_attempts_reject (placements : List Placement) (offset : Int) :
    ((empty .reject).attempts placements).at? offset =
      placements.find? (·.offset = offset) := by
  rw [attempts_reject]
  exact Placement.find?_arrange_firstAtOffset placements offset

/-- With the policy of replacing no insert fails. -/
theorem insert_attempts_replace (front : List Placement) (p : Placement) :
    ((empty .replace).attempts front).insert p =
      .ok ((empty .replace).attempts (front ++ [p])) := by
  have hinsert := insert_eq_ok (b := ⟨.replace, arrange front⟩) (p := p) nofun
  rw [attempts_concat, attempts_replace, hinsert, attempt_of_ok hinsert]

/-- With the policy of refusing an insert fails where something was inserted before, and then it
changes nothing. -/
theorem insert_attempts_reject (front : List Placement) (p : Placement) :
    match front.find? (·.offset = p.offset) with
    | none => ((empty .reject).attempts front).insert p =
        .ok ((empty .reject).attempts (front ++ [p]))
    | some old =>
      ((empty .reject).attempts front).insert p = .error
          (if Numeral.isSpellable p.offset then .overlap p.name old.name p.offset
            else .failure .longNumeral) ∧
        (empty .reject).attempts (front ++ [p]) = (empty .reject).attempts front := by
  have hat := at?_attempts_reject front p.offset
  rw [attempts_concat]
  cases hfind : front.find? (·.offset = p.offset) with
  | none =>
    have hinsert := insert_eq_ok fun _ => hat.trans hfind
    rw [attempt_of_ok hinsert, hinsert]
  | some old =>
    have hpolicy : ((empty .reject).attempts front).policy = .reject := by
      rw [attempts_reject]
    have hinsert := insert_eq_error_iff.mpr ⟨hpolicy, old, hat.trans hfind, rfl⟩
    refine ⟨hinsert.trans ?_, attempt_of_error hinsert⟩
    simp [Error.raised, Error.numerals]

theorem build_attempts_replace (placements : List Placement) :
    ((empty .replace).attempts placements).build = Layout.ofPlacements placements := by
  rw [attempts_replace]
  rfl

theorem build_attempts_reject (placements : List Placement) :
    ((empty .reject).attempts placements).build =
      Layout.ofPlacements (firstAtOffset placements) := by
  rw [attempts_reject]
  rfl

/-- **Building fails** where an offset is negative, with either policy, for the lowest one. -/
theorem build_attempts_eq_error_iff (placements : List Placement) (policy : OverlapPolicy)
    {e : Error} : ((empty policy).attempts placements).build = .error e ↔
      ∃ p ∈ placements, p.offset < 0 ∧ (∀ q ∈ placements, p.offset ≤ q.offset) ∧
        e = (Error.invalid (.negative "Field offset" p.offset)).raised := by
  cases policy with
  | replace => rw [build_attempts_replace, Layout.ofPlacements_eq_error_iff]
  | reject =>
    rw [build_attempts_reject, Layout.ofPlacements_firstAtOffset_eq_error_iff,
      Layout.ofPlacements_eq_error_iff]

/-- **Building and constructing agree**, whatever is inserted. With the policy of replacing no
insert fails, and what is built is the struct of all placements, which ascends and has at each
offset the last one that was given for it. With that of refusing, an insert fails exactly at an
offset at which something was inserted before, and it changes nothing; the failure tells the two
fields and the offset, or, if this has too many digits to be told, that a number is too long. What
is built is then the struct of the first placement at each offset. Either way building fails exactly
where an offset is negative, for the lowest one. A struct does not hang on the order of placements
at different offsets, and it is the struct of its own fields. -/
theorem build_attempts (placements : List Placement) :
    (∀ front p back, placements = front ++ p :: back →
      ((empty .replace).attempts front).insert p =
        .ok ((empty .replace).attempts (front ++ [p]))) ∧
    ((empty .replace).attempts placements).build = Layout.ofPlacements placements ∧
    (∀ l, Layout.ofPlacements placements = .ok l →
      l.IsPlaced fun offset => (placements.filter (·.offset = offset)).getLast?) ∧
    (∀ front p back, placements = front ++ p :: back →
      match front.find? (·.offset = p.offset) with
      | none => ((empty .reject).attempts front).insert p =
          .ok ((empty .reject).attempts (front ++ [p]))
      | some old =>
        ((empty .reject).attempts front).insert p = .error
            (if Numeral.isSpellable p.offset then .overlap p.name old.name p.offset
              else .failure .longNumeral) ∧
          (empty .reject).attempts (front ++ [p]) = (empty .reject).attempts front) ∧
    ((empty .reject).attempts placements).build = Layout.ofPlacements (firstAtOffset placements) ∧
    (∀ l, Layout.ofPlacements (firstAtOffset placements) = .ok l →
      l.IsPlaced fun offset => placements.find? (·.offset = offset)) ∧
    (∀ policy e, ((empty policy).attempts placements).build = .error e ↔
      ∃ p ∈ placements, p.offset < 0 ∧ (∀ q ∈ placements, p.offset ≤ q.offset) ∧
        e = (Error.invalid (.negative "Field offset" p.offset)).raised) ∧
    (∀ other, (∀ offset, other.filter (·.offset = offset) =
      placements.filter (·.offset = offset)) →
        Layout.ofPlacements other = Layout.ofPlacements placements) ∧
    (OffsetsDiffer placements → ∀ other, other.Perm placements →
      Layout.ofPlacements other = Layout.ofPlacements placements) ∧
    ∀ l, Layout.ofPlacements placements = .ok l →
      Layout.ofPlacements (l.fields.map Placement.ofField) = .ok l := by
  refine ⟨fun front p back _ => insert_attempts_replace front p,
    build_attempts_replace placements, fun l => Layout.isPlaced_of_ofPlacements,
    fun front p back _ => insert_attempts_reject front p, build_attempts_reject placements,
    fun l => Layout.isPlaced_of_ofPlacements_firstAtOffset,
    fun policy e => build_attempts_eq_error_iff placements policy,
    fun other => Layout.ofPlacements_congr, fun hne other hperm => ?_,
    fun l => Layout.ofPlacements_fields⟩
  exact Layout.ofPlacements_congr (Placement.filter_offset_of_perm hperm hne)

/-- Two fields at one offset with another between them: the second one stays, or the first. -/
theorem build_attempts_twice :
    let placements : List Placement := [⟨4, "a", .text 1⟩, ⟨0, "b", .text 2⟩, ⟨4, "c", .text 3⟩]
    ((empty .replace).attempts placements).build =
        .ok (.struct [⟨0, "b", .text 2⟩, ⟨4, "c", .text 3⟩]) ∧
      ((empty .reject).attempts placements).build =
        .ok (.struct [⟨0, "b", .text 2⟩, ⟨4, "a", .text 1⟩]) := by
  intro placements
  obtain ⟨-, hreplace, -, -, hreject, -⟩ := build_attempts placements
  exact ⟨hreplace.trans rfl, hreject.trans rfl⟩

/-- **A field is refused as one that overlaps only where its offset can be told.** -/
theorem insert_of_unspellable_offset :
    let offset : Int := wordCount 16384
    let b := (empty .reject).attempt ⟨offset, "a", .text 0⟩
    b.at? offset = some ⟨offset, "a", .text 0⟩ ∧
      b.insert ⟨offset, "b", .text 0⟩ = .error (.failure .longNumeral) := by
  intro offset b
  have hat : b.at? offset = some ⟨offset, "a", .text 0⟩ := by
    have hfind := at?_attempts_reject [⟨offset, "a", .text 0⟩] offset
    rwa [List.find?_cons_of_pos (by simp)] at hfind
  refine ⟨hat, insert_eq_error_iff.mpr ⟨?_, _, hat, ?_⟩⟩
  · exact congrArg StructBuilder.policy (attempts_reject [⟨offset, "a", .text 0⟩])
  · have hlong : Numeral.isSpellable offset = false := by decide +kernel
    rw [Error.raised, Error.numerals, List.all_cons, hlong]
    rfl

end StructBuilder

end TypedMemory
