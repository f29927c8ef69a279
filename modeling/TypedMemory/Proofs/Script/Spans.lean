import Mathlib.Data.List.Basic
import TypedMemory.Proofs.Script.Overlong

/-!
# Where the fields of a declaration come to lie

Once their expressions are evaluated, the items of a declaration are **spans** that lie one behind
the other: bytes that are skipped, and fields. The offset of each is the sum of the lengths before
it (`TypedMemory.Native.declared`). This is all there is to a declaration: to place its items is to
insert the declared fields one after another (`TypedMemory.Native.place_eq_insertAll`), and these
are in order already.

Two of them have the same offset only if nothing between them has any bytes, and the first has none
either. So what a later field replaces is nothing, and those that stay hold every byte that was
declared (`TypedMemory.Native.compile_holds`).
-/

namespace TypedMemory

open Effect

namespace Native

/-! ### Spans -/

/-- An item with its expression evaluated: so many bytes to skip, or a field. -/
inductive Span
  | padding (size : Int)
  | field (name : Text) (type : Layout)

/-- The bytes that a span takes up. -/
def Span.length : Span → Int
  | .padding size => size
  | .field _ type => type.size

/-- The bytes that spans take up, one behind the other. -/
def extent : List Span → Int
  | [] => 0
  | s :: rest => s.length + extent rest

theorem extent_append (front back : List Span) :
    extent (front ++ back) = extent front + extent back := by
  induction front with
  | nil => simp [extent]
  | cons s rest ih =>
    rw [List.cons_append, extent, extent, ih]
    omega

/-- Span `k`, if it is a field, at its offset: what the spans before it take up. -/
def declaredAt? (spans : List Span) (k : Nat) : Option Placement :=
  match spans[k]? with
  | some (.field name type) => some ⟨extent (spans.take k), name, type⟩
  | _ => none

/-- **The fields that are declared**, at their offsets. -/
def declared (spans : List Span) : List Placement :=
  (List.range spans.length).filterMap (declaredAt? spans)

/-- The same along a running offset. -/
def declaredFrom : Int → List Span → List Placement
  | _, [] => []
  | offset, .padding size :: rest => declaredFrom (offset + size) rest
  | offset, .field name type :: rest =>
    ⟨offset, name, type⟩ :: declaredFrom (offset + type.size) rest

theorem declaredFrom_append (offset : Int) (front back : List Span) :
    declaredFrom offset (front ++ back) =
      declaredFrom offset front ++ declaredFrom (offset + extent front) back := by
  induction front generalizing offset with
  | nil => simp [declaredFrom, extent]
  | cons s rest ih =>
    cases s with
    | padding size =>
      rw [List.cons_append, declaredFrom, declaredFrom, ih, extent, Span.length, Int.add_assoc]
    | field name type =>
      rw [List.cons_append, declaredFrom, declaredFrom, ih, extent, Span.length, Int.add_assoc,
        List.cons_append]

/-- The running offset is the sum of what comes before. -/
theorem declared_eq_declaredFrom (spans : List Span) : declared spans = declaredFrom 0 spans := by
  induction spans using List.reverseRecOn with
  | nil => rfl
  | append_singleton rest s ih =>
    have hbefore : (List.range rest.length).filterMap (declaredAt? (rest ++ [s])) =
        declared rest := by
      refine List.filterMap_congr fun k hk => ?_
      have hk : k < rest.length := List.mem_range.mp hk
      rw [declaredAt?, declaredAt?, List.getElem?_append_left hk,
        List.take_append_of_le_length (Nat.le_of_lt hk)]
    have hlast : declaredAt? (rest ++ [s]) rest.length =
        (declaredFrom (0 + extent rest) [s]).head? := by
      cases s <;> simp [declaredAt?, declaredFrom]
    rw [declaredFrom_append, ← ih, declared, List.length_append, List.length_singleton,
      List.range_succ, List.filterMap_append, hbefore]
    cases s <;> simp [hlast, declaredFrom]

/-! ### Lengths that are not negative -/

/-- Bytes that are skipped are not negative, and a field has a layout. -/
def Span.IsProper : Span → Prop
  | .padding size => 0 ≤ size
  | .field _ type => type.isGenuine = true

section Proper

variable {spans : List Span} {offset : Int}

theorem Span.IsProper.length_nonneg {s : Span} (h : s.IsProper) : 0 ≤ s.length := by
  cases s with
  | padding size => exact h
  | field name type => exact Int.natCast_nonneg _

theorem extent_nonneg (h : ∀ s ∈ spans, s.IsProper) : 0 ≤ extent spans := by
  induction spans with
  | nil => exact Int.le_refl 0
  | cons s rest ih =>
    rw [List.forall_mem_cons] at h
    have hs := h.1.length_nonneg
    have hrest := ih h.2
    rw [extent]
    omega

/-- Spans that take up nothing together take up nothing each. -/
theorem length_of_extent (h : ∀ s ∈ spans, s.IsProper) (hzero : extent spans = 0) :
    ∀ s ∈ spans, s.length = 0 := by
  induction spans with
  | nil => exact nofun
  | cons s rest ih =>
    rw [List.forall_mem_cons] at h
    have hs := h.1.length_nonneg
    have hrest := extent_nonneg h.2
    rw [extent] at hzero
    exact List.forall_mem_cons.mpr ⟨by omega, ih h.2 (by omega)⟩

theorem le_of_mem_declaredFrom (h : ∀ s ∈ spans, s.IsProper) {p : Placement}
    (hp : p ∈ declaredFrom offset spans) : offset ≤ p.offset := by
  induction spans generalizing offset with
  | nil => cases hp
  | cons s rest ih =>
    rw [List.forall_mem_cons] at h
    have hs := h.1.length_nonneg
    cases s with
    | padding size =>
      have := ih h.2 hp
      rw [Span.length] at hs
      omega
    | field name type =>
      rcases List.mem_cons.mp hp with rfl | hp
      · exact Int.le_refl _
      · have := ih h.2 hp
        omega

/-- Declared fields lie one behind the other. -/
theorem pairwise_declaredFrom (h : ∀ s ∈ spans, s.IsProper) :
    (declaredFrom offset spans).Pairwise
      fun p q : Placement => p.offset + p.type.size ≤ q.offset := by
  induction spans generalizing offset with
  | nil => exact .nil
  | cons s rest ih =>
    rw [List.forall_mem_cons] at h
    cases s with
    | padding size => exact ih h.2
    | field name type =>
      exact List.pairwise_cons.mpr ⟨fun q hq => le_of_mem_declaredFrom h.2 hq, ih h.2⟩

end Proper

/-! ### From items to spans -/

section Items

variable [Host] {block : Text} {evaluate : Expr → Run Value} {items : List Item} {m m' : Machine}
  {spans : List Span}

/-- The spans that items make, with their expressions evaluated one after another. -/
def resolve (block : Text) (evaluate : Expr → Run Value) : List Item → Run (List Span)
  | [] => pure []
  | .padding size :: rest => do
    let spans ← resolve block evaluate rest
    pure (.padding size :: spans)
  | .field name type :: rest => do
    let l ← fieldLayout block name (evaluate type)
    let spans ← resolve block evaluate rest
    pure (.field name l :: spans)

/-- The expressions of the items all give layouts, whatever has been done before. -/
def Resolves (evaluate : Expr → Run Value) (items : List Item) : Prop :=
  ∀ name type, Item.field name type ∈ items →
    ∀ m, ∃ l m', evaluate type m = (.ok (.type l), m') ∧ l.isGenuine = true

/-- Items whose expressions give layouts make spans. -/
theorem exists_resolve (hitems : PaddingsNatural items) (heval : Resolves evaluate items)
    (m : Machine) : ∃ spans m', resolve block evaluate items m = (.ok spans, m') ∧
      ∀ s ∈ spans, s.IsProper := by
  induction items generalizing m with
  | nil => exact ⟨[], m, rfl, nofun⟩
  | cons item rest ih =>
    have ih := ih (fun size h => hitems size (List.mem_cons_of_mem _ h))
      fun name type h => heval name type (List.mem_cons_of_mem _ h)
    cases item with
    | padding size =>
      obtain ⟨spans, m', hrest, hproper⟩ := ih m
      refine ⟨.padding size :: spans, m', ?_, List.forall_mem_cons.mpr ⟨?_, hproper⟩⟩
      · rw [resolve, bind_of_ok hrest]
        rfl
      · exact hitems size List.mem_cons_self
    | field name type =>
      obtain ⟨l, m₁, hl, hgenuine⟩ := heval name type List.mem_cons_self m
      have hlayout : fieldLayout block name (evaluate type) m = (.ok l, m₁) := by
        rw [fieldLayout, hl]
      obtain ⟨spans, m', hrest, hproper⟩ := ih m₁
      refine ⟨.field name l :: spans, m', ?_, List.forall_mem_cons.mpr ⟨hgenuine, hproper⟩⟩
      rw [resolve, bind_of_ok hlayout, bind_of_ok hrest]
      rfl

/-- **To place items is to insert the declared fields** one after another. Where none is refused
all expressions have been evaluated. -/
theorem place_eq_insertAll (h : resolve block evaluate items m = (.ok spans, m'))
    (hproper : ∀ s ∈ spans, s.IsProper) (b : StructBuilder) (offset : Int) :
    ∃ m₁, place block evaluate b offset items m =
        (b.insertAll (declaredFrom offset spans), m₁) ∧
      ∀ b', b.insertAll (declaredFrom offset spans) = .ok b' → m₁ = m' := by
  induction items generalizing m spans b offset with
  | nil =>
    cases h
    exact ⟨_, rfl, fun _ _ => rfl⟩
  | cons item rest ih =>
    cases item with
    | padding size =>
      obtain ⟨more, m₁, hrest, h⟩ := exists_of_bind_ok h
      cases h
      exact ih hrest (List.forall_mem_cons.mp hproper).2 b (offset + size)
    | field name type =>
      obtain ⟨l, m₁, hlayout, h⟩ := exists_of_bind_ok h
      obtain ⟨more, m₂, hrest, h⟩ := exists_of_bind_ok h
      cases h
      rw [List.forall_mem_cons] at hproper
      rw [place, bind_of_ok hlayout, declaredFrom, StructBuilder.insertAll]
      cases hinsert : b.insert ⟨offset, name, l⟩ with
      | error e =>
        refine ⟨m₁, rfl, fun b' hb' => ?_⟩
        cases hb'
      | ok b' =>
        have hsize : Run.lift l.size? m₁ = (.ok l.size, m₁) := by
          rw [Layout.size?_eq_ok hproper.1]
          rfl
        rw [bind_of_ok (show Run.lift (.ok b') m₁ = (.ok b', m₁) from rfl), bind_of_ok hsize]
        exact ih hrest hproper.2 b' (offset + l.size)

end Items

/-! ### The struct that holds them -/

/-- The end of a struct is that of its last field. -/
theorem fieldsSize_concat (fields : List (Field Layout)) (f : Field Layout) :
    Layout.size.fieldsSize (fields ++ [f]) = f.offset + f.type.size := by
  match fields with
  | [] => rfl
  | [g] => rfl
  | g :: k :: rest =>
    rw [List.cons_append, List.cons_append, Layout.size.fieldsSize]
    exact fieldsSize_concat (k :: rest) f

/-- The last of the placements has none behind it, so it is there, and the struct ends with it. -/
theorem size_lastAtOffset {placements : List Placement} (h : ∀ p ∈ placements, 0 ≤ p.offset) :
    ((Layout.struct ((Placement.lastAtOffset placements).map Placement.field)).size : Int) =
      match placements.getLast? with
      | none => 0
      | some p => p.offset + p.type.size := by
  induction placements using List.reverseRecOn with
  | nil => rfl
  | append_singleton rest p _ =>
    have hp := h p (List.mem_append_right rest (List.mem_singleton_self p))
    rw [Placement.lastAtOffset_concat, List.map_append, List.getLast?_concat]
    change ((Layout.size.fieldsSize (_ ++ [p.field]) : Nat) : Int) = _
    rw [fieldsSize_concat]
    simp only [Placement.field]
    omega

/-- **A struct holds spans.** -/
structure Holds (spans : List Span) (l : Layout) : Prop where
  /-- No field is declared below zero. -/
  natural : ∀ p ∈ declared spans, 0 ≤ p.offset
  /-- Its fields are those that no later one follows at the same offset. -/
  fields : l = .struct ((Placement.lastAtOffset (declared spans)).map Placement.field)
  /-- They are in the order in which they were declared. -/
  order : (Placement.lastAtOffset (declared spans)).Sublist (declared spans)
  /-- They lie one behind the other. -/
  apart : l.fields.Pairwise fun f g => f.offset + f.type.size ≤ g.offset
  /-- If a later field has the same offset as one before, then this has no bytes, and nothing
  between the two has any. -/
  lost : ∀ {front middle back : List Span} {name name' : Text} {type type' : Layout},
    spans = front ++ .field name type :: (middle ++ .field name' type' :: back) →
      extent (front ++ .field name type :: middle) = extent front →
        type.size = 0 ∧ ∀ s ∈ middle, s.length = 0
  /-- Its size is the end of the field that was declared last. -/
  size : (l.size : Int) =
    match (declared spans).getLast? with
    | none => 0
    | some p => p.offset + p.type.size

section Compile

variable [Host] {block : Text} {evaluate : Expr → Run Value} {items : List Item} {m m' : Machine}
  {spans : List Span}

omit [Host] in
/-- Arranging the declared fields makes a struct that holds the spans. -/
theorem exists_holds (hproper : ∀ s ∈ spans, s.IsProper) :
    ∃ l, Layout.ofPlacements (declared spans) = .ok l ∧ Holds spans l := by
  have hdeclared := declared_eq_declaredFrom spans
  have hnatural : ∀ p ∈ declared spans, 0 ≤ p.offset := fun p hp =>
    le_of_mem_declaredFrom hproper (hdeclared ▸ hp)
  have hapart : (declared spans).Pairwise
      fun p q : Placement => p.offset + p.type.size ≤ q.offset :=
    hdeclared ▸ pairwise_declaredFrom hproper
  have harranged : Placement.arrange (declared spans) =
      Placement.lastAtOffset (declared spans) :=
    Placement.arrange_eq_lastAtOffset (hapart.imp fun h => by omega)
  have hsublist := Placement.lastAtOffset_sublist (declared spans)
  refine ⟨_, ?_, hnatural, rfl, hsublist, ?_, ?_, size_lastAtOffset hnatural⟩
  · rw [Layout.ofPlacements, harranged]
    exact Layout.ofArranged_eq_ok fun p hp => hnatural p (hsublist.subset hp)
  · refine List.pairwise_map.mpr ((hapart.sublist hsublist).imp_of_mem fun {p q} hp hq hpq => ?_)
    have hp' := hnatural p (hsublist.subset hp)
    simp only [Placement.field]
    omega
  · rintro front middle back name name' type type' rfl hsame
    have hbetween : extent (.field name type :: middle) = 0 := by
      rw [extent_append] at hsame
      omega
    have hzero := length_of_extent (fun s hs => hproper s (by
      rcases List.mem_cons.mp hs with rfl | hs <;> simp [*])) hbetween
    rw [List.forall_mem_cons] at hzero
    exact ⟨Int.natCast_eq_zero.mp hzero.1, hzero.2⟩

/-- What is compiled is what becomes of inserting the declared fields. -/
theorem compile_eq (h : resolve block evaluate items m = (.ok spans, m'))
    (hproper : ∀ s ∈ spans, s.IsProper) (policy : OverlapPolicy) :
    ∃ m₁, compile block evaluate policy items m =
        ((StructBuilder.empty policy).insertAll (declared spans) >>= StructBuilder.build, m₁) ∧
      ∀ b, (StructBuilder.empty policy).insertAll (declared spans) = .ok b → m₁ = m' := by
  obtain ⟨m₁, hplace, hend⟩ := place_eq_insertAll h hproper (.empty policy) 0
  rw [declared_eq_declaredFrom]
  refine ⟨m₁, ?_, hend⟩
  rw [compile, bind_apply, hplace]
  cases (StructBuilder.empty policy).insertAll (declaredFrom 0 spans) <;> rfl

/-- **Where the fields of a declaration come to lie.** Items without negative paddings, whose
expressions all give layouts, make spans, and there is a struct that holds these. If a later field
replaces one at its offset, this is the struct that is made. If it is refused, then this is so too
where all fields are declared at offsets of their own. Otherwise the first field at an offset that
is taken fails as one that overlaps the field there, or, if the offset has too many digits to be
told, as a number that is too long. -/
theorem compile_holds (block : Text) (hitems : PaddingsNatural items)
    (heval : Resolves evaluate items) (m : Machine) :
    ∃ spans m' l, resolve block evaluate items m = (.ok spans, m') ∧ Holds spans l ∧
      compile block evaluate .replace items m = (.ok l, m') ∧
      (StructBuilder.OffsetsDiffer (declared spans) →
        compile block evaluate .reject items m = (.ok l, m')) ∧
      (¬StructBuilder.OffsetsDiffer (declared spans) →
        ∃ front q between p back, declared spans = front ++ q :: between ++ p :: back ∧
          StructBuilder.OffsetsDiffer (front ++ q :: between) ∧ q.offset = p.offset ∧
          (compile block evaluate .reject items m).1 = .error
            (if Numeral.isSpellable p.offset then .overlap p.name q.name p.offset
              else .failure .longNumeral)) := by
  obtain ⟨spans, m', hresolve, hproper⟩ : ∃ spans m', resolve block evaluate items m = _ ∧ _ :=
    exists_resolve hitems heval m
  obtain ⟨l, hl, hholds⟩ := exists_holds hproper
  have hmade : ∀ policy : OverlapPolicy,
      (policy = .reject → StructBuilder.OffsetsDiffer (declared spans)) →
        compile block evaluate policy items m = (.ok l, m') := by
    intro policy hpolicy
    obtain ⟨m₁, hcompile, hend⟩ := compile_eq hresolve hproper policy
    have hinserted := StructBuilder.insertAll_eq_ok hpolicy
    rw [hcompile, hend _ hinserted, hinserted]
    exact congrArg (·, m') hl
  refine ⟨spans, m', l, hresolve, hholds, hmade .replace nofun, fun h => hmade .reject fun _ => h,
    fun h => ?_⟩
  obtain ⟨front, q, between, p, back, hsplit, hdiffer, hsame⟩ := StructBuilder.exists_clash h
  refine ⟨front, q, between, p, back, hsplit, hdiffer, hsame, ?_⟩
  obtain ⟨m₁, hcompile, -⟩ := compile_eq hresolve hproper .reject
  have hle : (front ++ q :: between).Pairwise fun p q => p.offset ≤ q.offset := by
    have hapart : (declared spans).Pairwise
        fun p q : Placement => p.offset + p.type.size ≤ q.offset :=
      declared_eq_declaredFrom spans ▸ pairwise_declaredFrom hproper
    rw [hsplit] at hapart
    exact (List.pairwise_append.mp hapart).1.imp fun h => by omega
  rw [hcompile, hsplit, StructBuilder.insertAll_clash hle hdiffer hsame]
  simp [Error.raised, Error.numerals, bind, Except.bind]

end Compile

/-- A padding, a field without bytes, and one that takes its place. -/
theorem compile_holds_replaced :
    let evaluate : Expr → Run Value := fun e =>
      pure (.type (match e with | .var _ => .text 0 | _ => .integer .uint8))
    let items : List Item := [.padding 2, .field "a" (.var "t"), .field "b" (.bool true)]
    let l := Layout.struct [⟨2, "b", .integer .uint8⟩]
    let m : Machine := ⟨{ bytes := [] }, []⟩
    PaddingsNatural items ∧ Resolves evaluate items ∧
      ∃ spans m', resolve "T" evaluate items m = (.ok spans, m') ∧ Holds spans l ∧
        compile "T" evaluate .replace items m = (.ok l, m') := by
  intro evaluate items l m
  have hitems : PaddingsNatural items := fun size hsize => by
    obtain rfl : size = 2 := by simpa [items] using hsize
    decide
  have heval : Resolves evaluate items := fun name type _ m =>
    ⟨_, m, rfl, by split <;> rfl⟩
  obtain ⟨spans, m', l', hresolve, hholds, hreplace, -⟩ := compile_holds "T" hitems heval m
  have hl : compile "T" evaluate .replace items m = (.ok l, m) := rfl
  obtain ⟨hl, rfl⟩ := Prod.mk.inj (hl.symm.trans hreplace)
  obtain rfl : l = l' := Except.ok.inj hl
  exact ⟨hitems, heval, spans, m, hresolve, hholds, hreplace⟩

/-- Two fields at an offset with too many digits: the second is refused, but the failure cannot be
told as one of a layout. -/
theorem compile_of_unspellable_offset :
    let evaluate : Expr → Run Value := fun _ => pure (.type (.text 0))
    let items : List Item :=
      [.padding (wordCount 16384), .field "b" (.bool true), .field "c" (.bool true)]
    let m : Machine := ⟨{ bytes := [] }, []⟩
    ∃ spans, resolve "T" evaluate items m = (.ok spans, m) ∧
      ¬StructBuilder.OffsetsDiffer (declared spans) ∧
      (compile "T" evaluate .reject items m).1 = .error (.failure .longNumeral) := by
  intro evaluate items m
  have hfails : failure? (compile "T" evaluate .reject items m).1 =
      some (.failure .longNumeral) := by decide +kernel
  refine ⟨[.padding (wordCount 16384), .field "b" (.text 0), .field "c" (.text 0)], rfl, ?_,
    failure?_eq_some_iff.mp hfails⟩
  decide +kernel

end Native

end TypedMemory
