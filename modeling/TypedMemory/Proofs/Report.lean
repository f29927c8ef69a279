import Mathlib.Data.Finset.Card
import Mathlib.Order.Interval.Finset.Nat
import TypedMemory.Layout.Report
import TypedMemory.Proofs.Effect
import TypedMemory.Proofs.Layout
import TypedMemory.Proofs.Struct

/-!
# What a layout report counts

A report counts the bytes that fields cover by a cursor that goes along the fields in order. This
count is right: from the cursor on, it is the number of offsets that lie in some field
(`TypedMemory.LayoutReport.covered_eq_card`). It rests on the order alone, so fields may overlap,
contain one another or have no bytes.

But it counts all offsets, and the size of a struct ends with the last field. Where an earlier field
reaches behind that end, its bytes there are taken off from those that no field covers: the
padding of the report is the number of **holes**, less the number of bytes that **hang over**
(`TypedMemory.LayoutReport.ofStruct_padding`). A struct can be told to be packed, and have holes.

The **gaps** that are told field by field have no such fault. Up to a field, they add up to the
number of offsets below it that lie in no field (`TypedMemory.LayoutReport.ofStruct_gaps`). The
cursor is what makes this right: it stands at the greatest end so far and not at the end of the
field before, which may lie inside of an earlier one.
-/

namespace TypedMemory

/-! ### Coverage -/

namespace Layout

/-- The offsets that lie in some field. -/
def coverage : List (Field Layout) → Finset Nat
  | [] => ∅
  | f :: rest => Finset.Ico f.offset (f.offset + f.type.size) ∪ coverage rest

theorem mem_coverage {fields : List (Field Layout)} {x : Nat} :
    x ∈ coverage fields ↔ ∃ f ∈ fields, f.offset ≤ x ∧ x < f.offset + f.type.size := by
  induction fields with
  | nil => simp [coverage]
  | cons f rest ih => simp [coverage, ih]

/-- The offsets below a bound that lie in no field. -/
def uncovered (fields : List (Field Layout)) (stop : Nat) : Finset Nat :=
  Finset.range stop \ coverage fields

/-- The offsets of the bytes that no field covers. -/
def holes (l : Layout) : Finset Nat := Finset.range l.size \ coverage l.fields

/-- The offsets in fields that lie behind the end. -/
def overhang (l : Layout) : Finset Nat := coverage l.fields \ Finset.range l.size

/-- Bytes inside are covered or not, and what is covered lies inside or behind. -/
theorem size_add_overhang (l : Layout) :
    l.size + l.overhang.card = (coverage l.fields).card + l.holes.card := by
  have hinside := Finset.card_sdiff_add_card_inter (Finset.range l.size) (coverage l.fields)
  have hcovered := Finset.card_sdiff_add_card_inter (coverage l.fields) (Finset.range l.size)
  rw [Finset.card_range] at hinside
  rw [Finset.inter_comm] at hcovered
  simp only [holes, overhang]
  omega

end Layout

/-! ### The report -/

namespace LayoutReport

open Layout (coverage uncovered holes overhang)

variable {fields : List (Field Layout)} {reports : List FieldReport} {cursor : Nat}

section Padding

variable [Host]

/-- There is a report on fields if each of them has a type that can be shown. -/
theorem exists_fieldReports_iff (cursor : Nat) (fields : List (Field Layout)) :
    (∃ reports, fieldReports cursor fields = .ok reports) ↔
      ∀ f ∈ fields, f.type.renderFault? = none := by
  induction fields generalizing cursor with
  | nil => simp [fieldReports]
  | cons f rest ih =>
    rw [List.forall_mem_cons, ← Layout.describe_eq_ok_iff]
    constructor
    · rintro ⟨reports, h⟩
      obtain ⟨size, -, h⟩ := exists_of_bind_eq_ok h
      obtain ⟨type, htype, h⟩ := exists_of_bind_eq_ok h
      obtain ⟨more, hmore, -⟩ := exists_of_bind_eq_ok h
      exact ⟨⟨type, htype⟩, (ih _).mp ⟨more, hmore⟩⟩
    · rintro ⟨⟨type, htype⟩, hrest⟩
      have hgenuine := Layout.isGenuine_of_renderFault? (Layout.describe_eq_ok_iff.mp ⟨type, htype⟩)
      obtain ⟨more, hmore⟩ := (ih (max cursor (f.offset + f.type.size))).mpr hrest
      let report : FieldReport :=
        ⟨f.name, f.offset, f.type.size, f.offset + f.type.size, type, f.offset - cursor⟩
      refine ⟨report :: more, ?_⟩
      rw [fieldReports, Layout.size?_eq_ok hgenuine, htype]
      simp only [bind, Except.bind, hmore]
      rfl

omit [Host] in
/-- What a field adds to those behind it: from a cursor on, the rest of its bytes, and then what
those have from its end on. -/
theorem card_coverage_cons {f : Field Layout} (hle : ∀ g ∈ fields, f.offset ≤ g.offset) :
    (coverage (f :: fields) \ Finset.range cursor).card =
      (f.offset + f.type.size - max f.offset cursor) +
        (coverage fields \ Finset.range (max cursor (f.offset + f.type.size))).card := by
  have hsplit : coverage (f :: fields) \ Finset.range cursor =
      Finset.Ico (max f.offset cursor) (f.offset + f.type.size) ∪
        (coverage fields \ Finset.range (max cursor (f.offset + f.type.size))) := by
    ext x
    simp only [coverage, Finset.mem_sdiff, Finset.mem_union, Finset.mem_Ico, Finset.mem_range]
    -- No other field starts before this one.
    have hfrom : x ∈ coverage fields → f.offset ≤ x := fun hx => by
      obtain ⟨g, hg, hgx, -⟩ := Layout.mem_coverage.mp hx
      exact Nat.le_trans (hle g hg) hgx
    constructor
    · rintro ⟨hx | hx, hcursor⟩
      · exact .inl (by omega)
      · have := hfrom hx
        by_cases hend : x < f.offset + f.type.size
        · exact .inl (by omega)
        · exact .inr ⟨hx, by omega⟩
    · rintro (hx | ⟨hx, hend⟩)
      · exact ⟨.inl (by omega), by omega⟩
      · exact ⟨.inr hx, by omega⟩
  have hdisjoint : Disjoint (Finset.Ico (max f.offset cursor) (f.offset + f.type.size))
      (coverage fields \ Finset.range (max cursor (f.offset + f.type.size))) := by
    rw [Finset.disjoint_left]
    intro x hx hx'
    simp only [Finset.mem_sdiff, Finset.mem_Ico, Finset.mem_range] at hx hx'
    omega
  rw [hsplit, Finset.card_union_of_disjoint hdisjoint, Nat.card_Ico]

/-- **The count of what is covered is right** from the cursor on, wherever it stands: by induction
on the fields, which have to be in order. -/
theorem covered_eq_card (h : fieldReports cursor fields = .ok reports)
    (hs : fields.Pairwise fun f g => f.offset ≤ g.offset) (start : Nat) :
    covered start reports = (coverage fields \ Finset.range start).card := by
  induction fields generalizing cursor reports start with
  | nil =>
    cases h
    simp [covered, coverage]
  | cons f rest ih =>
    rw [List.pairwise_cons] at hs
    obtain ⟨size, hsize, h⟩ := exists_of_bind_eq_ok h
    obtain ⟨type, -, h⟩ := exists_of_bind_eq_ok h
    obtain ⟨more, hmore, h⟩ := exists_of_bind_eq_ok h
    cases h
    rw [card_coverage_cons hs.1, covered, ih hmore hs.2, Layout.size_eq_of_size? hsize]

/-- What a report tells of a struct: its fields, its size, and the count of what the fields cover
taken off from it. -/
theorem ofStruct_eq_ok {name : Text} {r : LayoutReport}
    (h : ofStruct name (.struct fields) = .ok r) :
    fieldReports 0 fields = .ok r.fields ∧ r.size = (Layout.struct fields).size ∧
      r.padding = (Layout.struct fields).size - covered 0 r.fields := by
  obtain ⟨reports, hreports, h⟩ := exists_of_bind_eq_ok h
  obtain ⟨size, hsize, h⟩ := exists_of_bind_eq_ok h
  cases h
  exact ⟨hreports, Layout.size_eq_of_size? hsize, by rw [Layout.size_eq_of_size? hsize]⟩

theorem exists_ofStruct_iff (name : Text) (fields : List (Field Layout)) :
    (∃ r, ofStruct name (.struct fields) = .ok r) ↔ ∀ f ∈ fields, f.type.renderFault? = none := by
  rw [← exists_fieldReports_iff 0]
  constructor
  · rintro ⟨r, h⟩
    exact ⟨r.fields, (ofStruct_eq_ok h).1⟩
  · rintro ⟨reports, hreports⟩
    have hgenuine : (Layout.struct fields).isGenuine = true :=
      Layout.fieldsGenuine_iff.mpr fun f hf => Layout.isGenuine_of_renderFault?
        ((exists_fieldReports_iff 0 fields).mp ⟨reports, hreports⟩ f hf)
    exact ⟨_, by rw [ofStruct, hreports, Layout.size?_eq_ok hgenuine]; rfl⟩

/-- **The padding of a report.** There is a report on a struct if the types of all of its fields can
be shown. Its padding is the number of bytes that no field covers, less the number of offsets in
fields that lie behind the end of the struct. So it is that number exactly if there are no such
bytes or no such offsets, and the struct is told to be packed whenever there are at least as many of
these as of those. -/
theorem ofStruct_padding (name : Text) {placements : List Placement} {l : Layout}
    (h : Layout.ofPlacements placements = .ok l) :
    ((∃ r, ofStruct name l = .ok r) ↔ ∀ f ∈ l.fields, f.type.renderFault? = none) ∧
    ∀ r, ofStruct name l = .ok r →
      r.size = l.size ∧ r.padding = l.holes.card - l.overhang.card ∧
      (r.padding = l.holes.card ↔ l.holes = ∅ ∨ l.overhang = ∅) ∧
      (r.isPacked = true ↔ l.holes.card ≤ l.overhang.card) := by
  have hascending := Layout.ascending_of_ofPlacements h
  obtain ⟨-, rfl⟩ := Layout.exists_of_ofArranged h
  refine ⟨exists_ofStruct_iff name _, fun r hr => ?_⟩
  obtain ⟨hreports, hsize, hpadding⟩ := ofStruct_eq_ok hr
  rw [covered_eq_card hreports (hascending.imp Nat.le_of_lt), Finset.range_zero,
    Finset.sdiff_empty] at hpadding
  have hbalance := Layout.size_add_overhang
    (.struct ((Placement.arrange placements).map Placement.field))
  simp only [Layout.fields] at hbalance
  refine ⟨hsize, by omega, ?_, ?_⟩
  · rw [← Finset.card_eq_zero, ← Finset.card_eq_zero]
    omega
  · rw [isPacked, beq_iff_eq]
    omega

end Padding

/-- A field that reaches behind the last one: it takes up more than the struct has, and hides the
two bytes before it that no field covers. -/
theorem ofStruct_padding_behind_end :
    let l := Layout.struct [⟨2, "a", .text 10⟩, ⟨4, "b", .integer .uint8⟩]
    Layout.ofPlacements [⟨2, "a", .text 10⟩, ⟨4, "b", .integer .uint8⟩] = .ok l ∧
      (∃ r, ofStruct "S" l = .ok r ∧ r.size = 5 ∧ r.padding = 0 ∧ r.isPacked = true) ∧
      l.holes = {0, 1} :=
  ⟨rfl, ⟨_, rfl, rfl, rfl, rfl⟩, by decide⟩

/-- Two fields that overlap, behind a gap, and asked for in the other order. -/
theorem ofStruct_padding_overlapping :
    let l := Layout.struct [⟨1, "a", .integer .uint32⟩, ⟨3, "b", .integer .uint32⟩]
    ∃ r, ofStruct "S" l = .ok r ∧ r.padding = l.holes.card ∧ l.overhang = ∅ := by
  intro l
  have hmade : Layout.ofPlacements
      [⟨3, "b", .integer .uint32⟩, ⟨1, "a", .integer .uint32⟩] = .ok l := rfl
  have hover : l.overhang = ∅ := by decide
  obtain ⟨hexists, hreport⟩ := ofStruct_padding "S" hmade
  obtain ⟨r, hr⟩ := hexists.mpr (by decide)
  exact ⟨r, hr, (hreport r hr).2.2.1.mpr (.inr hover), hover⟩

/-! ### Gaps -/

/-- All gaps of the reports together. -/
def gapSum : List FieldReport → Nat
  | [] => 0
  | f :: rest => f.gap + gapSum rest

theorem gapSum_concat (reports : List FieldReport) (f : FieldReport) :
    gapSum (reports ++ [f]) = gapSum reports + f.gap := by
  induction reports with
  | nil => simp [gapSum]
  | cons g rest ih => simp [gapSum, ih, Nat.add_assoc]

section Gaps

variable [Host]

/-- Each report is on the field in its place. -/
theorem map_fieldReports (h : fieldReports cursor fields = .ok reports) :
    reports.map FieldReport.offset = fields.map Field.offset ∧
      reports.map FieldReport.stop = fields.map fun f => f.offset + f.type.size := by
  induction fields generalizing cursor reports with
  | nil =>
    cases h
    exact ⟨rfl, rfl⟩
  | cons f rest ih =>
    obtain ⟨size, hsize, h⟩ := exists_of_bind_eq_ok h
    obtain ⟨type, -, h⟩ := exists_of_bind_eq_ok h
    obtain ⟨more, hmore, h⟩ := exists_of_bind_eq_ok h
    cases h
    obtain ⟨hoffsets, hstops⟩ := ih hmore
    simp [hoffsets, hstops, Layout.size_eq_of_size? hsize]

/-- Each report shows the type of its field. -/
theorem map_type_fieldReports (h : fieldReports cursor fields = .ok reports) :
    (reports.map fun f => .ok f.type) = fields.map fun f => f.type.describe := by
  induction fields generalizing cursor reports with
  | nil =>
    cases h
    rfl
  | cons f rest ih =>
    obtain ⟨size, -, h⟩ := exists_of_bind_eq_ok h
    obtain ⟨type, htype, h⟩ := exists_of_bind_eq_ok h
    obtain ⟨more, hmore, h⟩ := exists_of_bind_eq_ok h
    cases h
    rw [List.map_cons, List.map_cons, ih hmore, htype]

omit [Host] in
/-- The offsets from a cursor on and below a bound that lie in no field are those up to the first
field, and then those from its end on that lie in none of the others. -/
theorem card_uncovered_cons {f : Field Layout} (hle : ∀ g ∈ fields, f.offset ≤ g.offset)
    {stop : Nat} (hstop : f.offset ≤ stop) :
    (uncovered (f :: fields) stop \ Finset.range cursor).card =
      (f.offset - cursor) +
        (uncovered fields stop \ Finset.range (max cursor (f.offset + f.type.size))).card := by
  have hsplit : uncovered (f :: fields) stop \ Finset.range cursor =
      Finset.Ico cursor f.offset ∪
        (uncovered fields stop \ Finset.range (max cursor (f.offset + f.type.size))) := by
    ext x
    simp only [uncovered, coverage, Finset.mem_sdiff, Finset.mem_union, Finset.mem_Ico,
      Finset.mem_range]
    -- No other field starts before this one.
    have hfrom : x ∈ coverage fields → f.offset ≤ x := fun hx => by
      obtain ⟨g, hg, hgx, -⟩ := Layout.mem_coverage.mp hx
      exact Nat.le_trans (hle g hg) hgx
    constructor
    · rintro ⟨⟨hx, hnot⟩, hcursor⟩
      rw [not_or] at hnot
      by_cases hbefore : x < f.offset
      · exact .inl ⟨by omega, hbefore⟩
      · exact .inr ⟨⟨hx, hnot.2⟩, by omega⟩
    · rintro (⟨hcursor, hbefore⟩ | ⟨⟨hx, hnot⟩, hend⟩)
      · exact ⟨⟨by omega, not_or.mpr ⟨by omega, fun hx => by have := hfrom hx; omega⟩⟩, by omega⟩
      · exact ⟨⟨hx, not_or.mpr ⟨by omega, hnot⟩⟩, by omega⟩
  have hdisjoint : Disjoint (Finset.Ico cursor f.offset)
      (uncovered fields stop \ Finset.range (max cursor (f.offset + f.type.size))) := by
    rw [Finset.disjoint_left]
    intro x hx hx'
    simp only [Finset.mem_sdiff, Finset.mem_Ico, Finset.mem_range] at hx hx'
    omega
  rw [hsplit, Finset.card_union_of_disjoint hdisjoint, Nat.card_Ico]

/-- **The gaps up to a field** count the offsets below it that lie in no field, from the cursor on:
by induction on the fields, which have to be in order. -/
theorem gapSum_take_eq_card (h : fieldReports cursor fields = .ok reports)
    (hs : fields.Pairwise fun f g => f.offset ≤ g.offset) {k : Nat} {f : FieldReport}
    (hf : reports[k]? = some f) :
    gapSum (reports.take (k + 1)) =
      (uncovered fields f.offset \ Finset.range cursor).card := by
  induction fields generalizing cursor reports k with
  | nil =>
    cases h
    cases hf
  | cons g rest ih =>
    have hoffsets := (map_fieldReports h).1
    rw [List.pairwise_cons] at hs
    obtain ⟨size, hsize, h⟩ := exists_of_bind_eq_ok h
    obtain ⟨type, -, h⟩ := exists_of_bind_eq_ok h
    obtain ⟨more, hmore, h⟩ := exists_of_bind_eq_ok h
    cases h
    have hle : g.offset ≤ f.offset := by
      have hmem : f.offset ∈ (g :: rest).map Field.offset :=
        hoffsets ▸ List.mem_map.mpr ⟨f, List.mem_of_getElem? hf, rfl⟩
      rcases List.mem_cons.mp hmem with heq | hmem
      · exact Nat.le_of_eq heq.symm
      · obtain ⟨g', hg', heq⟩ := List.mem_map.mp hmem
        exact heq ▸ hs.1 g' hg'
    rw [card_uncovered_cons hs.1 hle, List.take_succ_cons, gapSum, Layout.size_eq_of_size? hsize]
    congr 1
    cases k with
    | zero =>
      -- Behind the first field there is nothing to count: its offset lies before its end.
      cases hf
      rw [List.take_zero, gapSum, eq_comm, Finset.card_eq_zero, Finset.sdiff_eq_empty_iff_subset]
      intro x hx
      rw [Finset.mem_range]
      have := Finset.mem_range.mp (Finset.mem_sdiff.mp hx).1
      dsimp only at this
      omega
    | succ k =>
      rw [Layout.size_eq_of_size? hsize] at hmore
      exact ih hmore hs.2 hf

omit [Host] in
/-- Up to a field there are the uncovered offsets below the field before it, and those from that
one's offset on. -/
theorem card_uncovered_of_le (fields : List (Field Layout)) {start stop : Nat}
    (h : start ≤ stop) :
    (uncovered fields stop).card =
      (uncovered fields start).card + (uncovered fields stop \ Finset.range start).card := by
  have hinter : uncovered fields stop ∩ Finset.range start = uncovered fields start := by
    ext x
    simp only [uncovered, Finset.mem_inter, Finset.mem_sdiff, Finset.mem_range]
    constructor
    · rintro ⟨⟨-, hnot⟩, hx⟩
      exact ⟨hx, hnot⟩
    · rintro ⟨hx, hnot⟩
      exact ⟨⟨by omega, hnot⟩, hx⟩
  rw [← hinter, Nat.add_comm, Finset.card_sdiff_add_card_inter]

/-- Fields at ascending offsets have reports at ascending offsets. -/
theorem offset_lt_of_lt (h : fieldReports cursor fields = .ok reports)
    (hs : fields.Pairwise fun f g => f.offset < g.offset) {i k : Nat} {f g : FieldReport}
    (hi : reports[i]? = some f) (hk : reports[k]? = some g) (hlt : i < k) :
    f.offset < g.offset := by
  have hsorted : reports.Pairwise fun f g => f.offset < g.offset := by
    rw [← List.pairwise_map (f := FieldReport.offset) (R := (· < ·)), (map_fieldReports h).1,
      List.pairwise_map]
    exact hs
  obtain ⟨hi', rfl⟩ := List.getElem?_eq_some_iff.mp hi
  obtain ⟨hk', rfl⟩ := List.getElem?_eq_some_iff.mp hk
  exact List.pairwise_iff_getElem.mp hsorted i k hi' hk' hlt

/-- A report is on a field, with its offset and its end. -/
theorem exists_field_of_mem (h : fieldReports cursor fields = .ok reports) {r : FieldReport}
    (hr : r ∈ reports) :
    ∃ f ∈ fields, r.offset = f.offset ∧ r.stop = f.offset + f.type.size := by
  obtain ⟨hoffsets, hstops⟩ := map_fieldReports h
  obtain ⟨i, hi⟩ := List.mem_iff_getElem?.mp hr
  obtain ⟨f, hf, hoffset⟩ : ∃ f, fields[i]? = some f ∧ f.offset = r.offset := by
    simpa [hi] using congrArg (·[i]?) hoffsets
  refine ⟨f, List.mem_of_getElem? hf, hoffset.symm, ?_⟩
  simpa [hi, hf] using congrArg (·[i]?) hstops

/-- **A gap** counts the offsets from the field before on that lie in no field. -/
theorem gap_eq_card (h : fieldReports 0 fields = .ok reports)
    (hs : fields.Pairwise fun f g => f.offset < g.offset) {k : Nat} {f g : FieldReport}
    (hf : reports[k]? = some f) (hg : reports[k + 1]? = some g) :
    g.gap = (uncovered fields g.offset \ Finset.range f.offset).card := by
  have hle := Nat.le_of_lt (offset_lt_of_lt h hs hf hg (Nat.lt_succ_self k))
  have hfirst := gapSum_take_eq_card h (hs.imp Nat.le_of_lt) hf
  have hboth := gapSum_take_eq_card h (hs.imp Nat.le_of_lt) hg
  rw [Finset.range_zero, Finset.sdiff_empty] at hfirst hboth
  rw [List.take_add_one, hg, Option.toList_some, gapSum_concat, hfirst,
    card_uncovered_of_le fields hle] at hboth
  omega

/-- A field that starts inside of an earlier one has no gap. -/
theorem gap_eq_zero (h : fieldReports 0 fields = .ok reports)
    (hs : fields.Pairwise fun f g => f.offset < g.offset) {i k : Nat} {f g : FieldReport}
    (hf : reports[i]? = some f) (hg : reports[k]? = some g) (hlt : i < k)
    (hinside : g.offset < f.stop) : g.gap = 0 := by
  obtain ⟨j, rfl⟩ : ∃ j, k = j + 1 := ⟨k - 1, by omega⟩
  have hj : j < reports.length := by
    have := (List.getElem?_eq_some_iff.mp hg).1
    omega
  have hp : reports[j]? = some reports[j] := List.getElem?_eq_getElem hj
  -- The field before starts no earlier than the one around, so all between lies in that one.
  have hle : f.offset ≤ (reports[j]).offset := by
    rcases Nat.lt_or_ge i j with hij | hij
    · exact Nat.le_of_lt (offset_lt_of_lt h hs hf hp hij)
    · obtain rfl : i = j := by omega
      rw [Option.some.inj (hf.symm.trans hp)]
  obtain ⟨f', hf', hoffset, hstop⟩ := exists_field_of_mem h (List.mem_of_getElem? hf)
  rw [gap_eq_card h hs hp hg, Finset.card_eq_zero, Finset.sdiff_eq_empty_iff_subset]
  intro x hx
  obtain ⟨hx, hnot⟩ := Finset.mem_sdiff.mp hx
  rw [Finset.mem_range] at hx ⊢
  by_contra hge
  exact hnot (Layout.mem_coverage.mpr ⟨f', hf', by omega, by omega⟩)

/-- **The gaps of a report.** There is a report on a struct if the types of all of its fields can be
shown, and it tells of each field in its place. Up to any field, that one included, the gaps add up
to the number of offsets below it that lie in no field at all. So behind the first field each gap
counts the offsets from the field before on that lie in no field, and a field that starts inside of
an earlier one has none. -/
theorem ofStruct_gaps (name : Text) {placements : List Placement} {l : Layout}
    (h : Layout.ofPlacements placements = .ok l) :
    ((∃ r, ofStruct name l = .ok r) ↔ ∀ f ∈ l.fields, f.type.renderFault? = none) ∧
    ∀ r, ofStruct name l = .ok r →
      r.fields.map FieldReport.offset = l.fields.map Field.offset ∧
      r.fields.map FieldReport.stop = l.fields.map (fun f => f.offset + f.type.size) ∧
      (∀ (k : Nat) (f : FieldReport), r.fields[k]? = some f →
        gapSum (r.fields.take (k + 1)) = (uncovered l.fields f.offset).card) ∧
      (∀ (k : Nat) (f g : FieldReport), r.fields[k]? = some f → r.fields[k + 1]? = some g →
        g.gap = (uncovered l.fields g.offset \ Finset.range f.offset).card) ∧
      ∀ (i k : Nat) (f g : FieldReport), r.fields[i]? = some f → r.fields[k]? = some g → i < k →
        g.offset < f.stop → g.gap = 0 := by
  have hascending := Layout.ascending_of_ofPlacements h
  obtain ⟨-, rfl⟩ := Layout.exists_of_ofArranged h
  refine ⟨exists_ofStruct_iff name _, fun r hr => ?_⟩
  have hreports := (ofStruct_eq_ok hr).1
  obtain ⟨hoffsets, hstops⟩ := map_fieldReports hreports
  refine ⟨hoffsets, hstops, fun k f hf => ?_, fun k f g => gap_eq_card hreports hascending,
    fun i k f g => gap_eq_zero hreports hascending⟩
  have hsum := gapSum_take_eq_card hreports (hascending.imp Nat.le_of_lt) hf
  rwa [Finset.range_zero, Finset.sdiff_empty] at hsum

end Gaps

/-- A long field, a short one inside of it, and a third that starts in the long one too, but behind
the end of the short one; and a last field behind a gap. -/
theorem ofStruct_gaps_inside :
    let l := Layout.struct [⟨1, "a", .text 6⟩, ⟨2, "b", .integer .uint8⟩,
      ⟨5, "c", .integer .uint16⟩, ⟨9, "d", .text 0⟩]
    ∃ r, ofStruct "S" l = .ok r ∧ r.fields.map FieldReport.gap = [1, 0, 0, 2] ∧
      gapSum (r.fields.take 4) = (uncovered l.fields 9).card := by
  intro l
  have hmade : Layout.ofPlacements [⟨9, "d", .text 0⟩, ⟨1, "a", .text 6⟩,
      ⟨5, "c", .integer .uint16⟩, ⟨2, "b", .integer .uint8⟩] = .ok l := rfl
  obtain ⟨hexists, hreport⟩ := ofStruct_gaps "S" hmade
  obtain ⟨r, hr⟩ := hexists.mpr (by decide)
  refine ⟨r, hr, ?_, (hreport r hr).2.2.1 3 ⟨"d", 9, 0, 9, "Text(0)", 2⟩ ?_⟩
  all_goals
    cases hr
    rfl

end LayoutReport

end TypedMemory
