import Mathlib.Data.List.Induction
import TypedMemory.Proofs.Effect
import TypedMemory.Layout.Build

/-!
# Fields in order

The fields of a struct ascend by their offsets, strictly, in whatever order they were asked for:
to insert one into an ascending row makes an ascending row
(`TypedMemory.Placement.ascending_insert`), and every struct is made so
(`TypedMemory.Layout.ascending_of_ofPlacements`). One that is inserted behind all others goes to the
end, in the place of the one at its offset if there is one. So where fields are asked for in order
already, those stay that no later one follows at the same offset
(`TypedMemory.Placement.arrange_eq_lastAtOffset`).
-/

namespace TypedMemory

namespace Placement

variable {p r : Placement} {placed : List Placement}

theorem mem_insert (h : r ∈ p.insert placed) : r = p ∨ r ∈ placed := by
  induction placed with
  | nil => exact Or.inl (List.mem_singleton.mp h)
  | cons q rest ih =>
    rw [insert] at h
    split at h
    · exact List.mem_cons.mp h
    · split at h
      · exact (List.mem_cons.mp h).imp_right (List.mem_cons_of_mem q)
      · rcases List.mem_cons.mp h with rfl | h
        · exact Or.inr List.mem_cons_self
        · exact (ih h).imp_right (List.mem_cons_of_mem q)

/-- The offsets ascend. -/
def Ascending (placed : List Placement) : Prop :=
  placed.Pairwise fun q r => q.offset < r.offset

theorem ascending_insert (h : Ascending placed) : Ascending (p.insert placed) := by
  induction placed with
  | nil => exact List.pairwise_singleton _ _
  | cons q rest ih =>
    have hcons := List.pairwise_cons.mp h
    rw [insert]
    split
    case isTrue hlt =>
      refine List.pairwise_cons.mpr ⟨fun r hr => ?_, h⟩
      rcases List.mem_cons.mp hr with rfl | hr
      · exact hlt
      · exact Int.lt_trans hlt (hcons.1 r hr)
    case isFalse hge =>
      split
      case isTrue heq => exact List.pairwise_cons.mpr ⟨fun r hr => heq ▸ hcons.1 r hr, hcons.2⟩
      case isFalse hne =>
        refine List.pairwise_cons.mpr ⟨fun r hr => ?_, ih hcons.2⟩
        rcases mem_insert hr with rfl | hr
        · omega
        · exact hcons.1 r hr

/-- The last one is inserted last. -/
theorem arrange_concat (placements : List Placement) (p : Placement) :
    arrange (placements ++ [p]) = p.insert (arrange placements) :=
  List.foldl_append

/-- **Placements are arranged by ascending offset.** -/
theorem ascending_arrange (placements : List Placement) : Ascending (arrange placements) := by
  induction placements using List.reverseRecOn with
  | nil => exact .nil
  | append_singleton rest p ih =>
    rw [arrange_concat]
    exact ascending_insert ih

/-- What is inserted behind all others is the last one, in the place of the one at its offset. -/
theorem insert_of_le (h : Ascending placed) (hle : ∀ q ∈ placed, q.offset ≤ p.offset) :
    p.insert placed = placed.filter (·.offset ≠ p.offset) ++ [p] := by
  induction placed with
  | nil => rfl
  | cons q rest ih =>
    rw [List.forall_mem_cons] at hle
    have hcons := List.pairwise_cons.mp h
    rw [insert, if_neg (by omega)]
    split
    case isTrue heq =>
      -- Nothing stands behind the one that is replaced.
      have hrest : rest = [] := List.eq_nil_iff_forall_not_mem.mpr fun r hr => by
        have hr' := hcons.1 r hr
        have hr'' := hle.2 r hr
        omega
      simp [hrest, heq]
    case isFalse hne => simp [ih hcons.2 hle.2, Ne.symm hne]

/-! ### The last one at each offset -/

/-- **The placements that no later one follows** at the same offset. -/
def lastAtOffset : List Placement → List Placement
  | [] => []
  | p :: rest =>
    if rest.all (·.offset ≠ p.offset) then p :: lastAtOffset rest else lastAtOffset rest

theorem lastAtOffset_sublist (placements : List Placement) :
    (lastAtOffset placements).Sublist placements := by
  induction placements with
  | nil => exact .slnil
  | cons p rest ih =>
    rw [lastAtOffset]
    split
    · exact ih.cons_cons p
    · exact ih.cons p

/-- One more placement behind the others is the last at its offset. -/
theorem lastAtOffset_concat (placements : List Placement) (p : Placement) :
    lastAtOffset (placements ++ [p]) =
      (lastAtOffset placements).filter (·.offset ≠ p.offset) ++ [p] := by
  induction placements with
  | nil => rfl
  | cons q rest ih =>
    have hall : (rest ++ [p]).all (·.offset ≠ q.offset) =
        (rest.all (·.offset ≠ q.offset) && decide (p.offset ≠ q.offset)) := by simp
    rw [List.cons_append, lastAtOffset, lastAtOffset, ih, hall]
    by_cases hp : p.offset = q.offset
    · -- What is at the offset of `p` is left out on both sides.
      rw [if_neg (by simp [hp])]
      split
      · rw [List.filter_cons_of_neg (by simp [hp])]
      · rfl
    · by_cases hrest : rest.all (·.offset ≠ q.offset) = true
      · rw [if_pos (Bool.and_eq_true_iff.mpr ⟨hrest, decide_eq_true hp⟩), if_pos hrest,
          List.filter_cons_of_pos (by simp [Ne.symm hp]), List.cons_append]
      · rw [if_neg fun h => hrest (Bool.and_eq_true_iff.mp h).1, if_neg hrest]

theorem lastAtOffset_of_ne {placements : List Placement}
    (h : placements.Pairwise fun p q => p.offset ≠ q.offset) :
    lastAtOffset placements = placements := by
  induction placements with
  | nil => rfl
  | cons p rest ih =>
    rw [List.pairwise_cons] at h
    rw [lastAtOffset, ih h.2, if_pos]
    simpa using fun q hq => Ne.symm (h.1 q hq)

theorem mem_of_mem_arrange {placements : List Placement} (h : r ∈ arrange placements) :
    r ∈ placements := by
  induction placements using List.reverseRecOn with
  | nil => cases h
  | append_singleton rest p ih =>
    rw [arrange_concat] at h
    rcases mem_insert h with rfl | h
    · exact List.mem_append_right rest (List.mem_singleton_self r)
    · exact List.mem_append_left _ (ih h)

/-- **What is in order already** loses no more than it has to: by induction from the end. -/
theorem arrange_eq_lastAtOffset {placements : List Placement}
    (h : placements.Pairwise fun p q => p.offset ≤ q.offset) :
    arrange placements = lastAtOffset placements := by
  induction placements using List.reverseRecOn with
  | nil => rfl
  | append_singleton rest p ih =>
    obtain ⟨hrest, -, hle⟩ := List.pairwise_append.mp h
    rw [arrange_concat, insert_of_le (ascending_arrange rest), ih hrest, lastAtOffset_concat]
    exact fun q hq => hle q (mem_of_mem_arrange hq) p (List.mem_singleton_self p)

end Placement

namespace Layout

variable {placements : List Placement} {l : Layout}

theorem ofArranged_eq_ok (h : ∀ p ∈ placements, 0 ≤ p.offset) :
    ofArranged placements = .ok (.struct (placements.map Placement.field)) := by
  have hnone : placements.find? (·.offset < 0) = none :=
    List.find?_eq_none.mpr fun p hp => by simpa using h p hp
  rw [ofArranged, hnone]

theorem exists_of_ofArranged (h : ofArranged placements = .ok l) :
    (∀ p ∈ placements, 0 ≤ p.offset) ∧ l = .struct (placements.map Placement.field) := by
  rw [ofArranged] at h
  split at h
  case h_1 => cases h
  case h_2 hnone =>
    cases h
    exact ⟨fun p hp => by simpa using List.find?_eq_none.mp hnone p hp, rfl⟩

/-- **The fields of a struct ascend by their offsets.** -/
theorem ascending_of_ofPlacements (h : ofPlacements placements = .ok l) :
    l.fields.Pairwise fun f g => f.offset < g.offset := by
  obtain ⟨hnatural, rfl⟩ := exists_of_ofArranged h
  refine List.pairwise_map.mpr ((Placement.ascending_arrange placements).imp_of_mem ?_)
  intro p q hp hq hlt
  have hp' := hnatural p hp
  have hq' := hnatural q hq
  simp only [Placement.field]
  omega

end Layout

/-! ### Inserting one after another -/

namespace StructBuilder

variable {b : StructBuilder}

theorem placed_of_insert {b' : StructBuilder} {p : Placement} (h : b.insert p = .ok b') :
    b'.placed = p.insert b.placed := by
  rw [insert] at h
  split at h
  · cases h
  · cases h
    rfl

/-- A field is refused where there is one already, and only if the policy says so. -/
theorem insert_eq_error_iff {b : StructBuilder} {p : Placement} {e : Error} :
    b.insert p = .error e ↔ b.policy = .reject ∧
      ∃ old, b.at? p.offset = some old ∧ e = (Error.overlap p.name old.name p.offset).raised := by
  rw [insert]
  split
  · next old hpolicy hold => simp [hpolicy, hold, Error.fail, eq_comm]
  · next hother =>
    constructor
    · intro h
      cases h
    · rintro ⟨hpolicy, old, hold, -⟩
      exact absurd hold (hother old hpolicy)

/-- Otherwise it is put in. -/
theorem insert_eq_ok {p : Placement} (h : b.policy = .reject → b.at? p.offset = none) :
    b.insert p = .ok { b with placed := p.insert b.placed } := by
  rw [insert]
  split
  · next old hpolicy hold => cases hold.symm.trans (h hpolicy)
  · rfl

/-- Insert placements one after another, up to the first that is refused. -/
def insertAll : StructBuilder → List Placement → Except Error StructBuilder
  | b, [] => .ok b
  | b, p :: rest => do
    let b ← b.insert p
    insertAll b rest

theorem insertAll_append (b : StructBuilder) (front back : List Placement) :
    b.insertAll (front ++ back) = b.insertAll front >>= fun b => b.insertAll back := by
  induction front generalizing b with
  | nil => rfl
  | cons p rest ih => simp only [List.cons_append, insertAll, bind_assoc, ih]

theorem insertAll_singleton (b : StructBuilder) (p : Placement) :
    b.insertAll [p] = b.insert p := by
  simp only [insertAll]
  cases b.insert p <;> rfl

/-- No two of the placements have the same offset. -/
abbrev OffsetsDiffer (placements : List Placement) : Prop :=
  placements.Pairwise fun p q => p.offset ≠ q.offset

/-- **What is not refused is arranged**, and nothing is unless two offsets are the same. -/
theorem insertAll_eq_ok {policy : OverlapPolicy} {placements : List Placement}
    (h : policy = .reject → OffsetsDiffer placements) :
    (empty policy).insertAll placements = .ok ⟨policy, Placement.arrange placements⟩ := by
  induction placements using List.reverseRecOn with
  | nil => rfl
  | append_singleton rest p ih =>
    have hrest := ih fun hpolicy => (List.pairwise_append.mp (h hpolicy)).1
    rw [insertAll_append, hrest, Placement.arrange_concat]
    refine (insertAll_singleton _ p).trans (insert_eq_ok fun hpolicy => ?_)
    refine List.find?_eq_none.mpr fun q hq => ?_
    have hdiffer := (List.pairwise_append.mp (h hpolicy)).2.2 q (Placement.mem_of_mem_arrange hq) p
      (List.mem_singleton_self p)
    simpa using hdiffer

/-- **The first placement at an offset that is taken** is refused. -/
theorem insertAll_clash {front between back : List Placement} {q p : Placement}
    (hle : (front ++ q :: between).Pairwise fun p q => p.offset ≤ q.offset)
    (hne : OffsetsDiffer (front ++ q :: between)) (hq : q.offset = p.offset) :
    (empty .reject).insertAll (front ++ q :: between ++ p :: back) =
      .error (Error.overlap p.name q.name p.offset).raised := by
  have htaken : (StructBuilder.mk .reject (front ++ q :: between)).at? p.offset = some q := by
    refine List.find?_eq_some_iff_append.mpr ⟨by simpa using hq, front, between, rfl, ?_⟩
    intro r hr
    have hdiffer := (List.pairwise_append.mp hne).2.2 r hr q List.mem_cons_self
    simpa [← hq] using hdiffer
  have hrefused := insert_eq_error_iff.mpr ⟨rfl, q, htaken, rfl⟩
  rw [insertAll_append, insertAll_eq_ok fun _ => hne, Placement.arrange_eq_lastAtOffset hle,
    Placement.lastAtOffset_of_ne hne]
  simp only [bind, Except.bind, insertAll, hrefused]

/-- Where offsets are not all different there is a first one that is taken. -/
theorem exists_clash {placements : List Placement} (h : ¬OffsetsDiffer placements) :
    ∃ front q between p back, placements = front ++ q :: between ++ p :: back ∧
      OffsetsDiffer (front ++ q :: between) ∧ q.offset = p.offset := by
  induction placements using List.reverseRecOn with
  | nil => exact absurd .nil h
  | append_singleton rest p ih =>
    by_cases hrest : OffsetsDiffer rest
    · have hsame : ∃ q ∈ rest, q.offset = p.offset := by
        by_contra hnone
        push Not at hnone
        exact h (List.pairwise_append.mpr
          ⟨hrest, List.pairwise_singleton _ _, fun q hq r hr => by
            rw [List.mem_singleton.mp hr]
            exact hnone q hq⟩)
      obtain ⟨q, hq, hoffset⟩ := hsame
      obtain ⟨front, between, rfl⟩ := List.append_of_mem hq
      exact ⟨front, q, between, p, [], rfl, hrest, hoffset⟩
    · obtain ⟨front, q, between, p', back, rfl, hdiffer, hoffset⟩ := ih hrest
      exact ⟨front, q, between, p', back ++ [p], by simp, hdiffer, hoffset⟩

end StructBuilder

end TypedMemory
