import TypedMemory.Proofs.Script.Eval
import TypedMemory.Proofs.Script.Numerals
import TypedMemory.Proofs.Struct
import TypedMemory.Script.Native

/-!
# Fields of a declaration lie one behind another

A declaration places its fields at a running offset. The invariant is that of a struct in the
making that **ends by** an offset (`TypedMemory.StructBuilder.EndsBy`): its fields lie one
behind another and all of them end before the offset. A padding only moves the offset, which
is where numerals without a sign are needed, and a field is put at the offset and moves it by
its own size.

Two fields can meet at one offset only if the first of them has no bytes. Then the second
takes its place, or is refused. So the offsets stay **strictly** ascending, and this is what
makes the case the last one there is: a field in the middle is never replaced by a larger
one.
-/

namespace TypedMemory

open Effect

/-! ### Structs in the making -/

/-- One placement starts before another, and ends before it starts. -/
def Placement.IsBefore (q r : Placement) : Prop :=
  q.offset < r.offset ∧ q.offset + q.type.size ≤ r.offset

/-- The fields lie one behind another, and all of them end before the offset. -/
structure StructBuilder.EndsBy (b : StructBuilder) (stop : Int) : Prop where
  start : 0 ≤ stop
  inside : ∀ q ∈ b.placed, 0 ≤ q.offset ∧ q.offset + q.type.size ≤ stop
  apart : b.placed.Pairwise Placement.IsBefore
  parts : ∀ q ∈ b.placed, q.type.isWellLaidOut = true

/-- A placement behind all others keeps them apart, also where it takes the place of one. -/
theorem Placement.apart_insert {p : Placement} {placed : List Placement}
    (hbelow : ∀ q ∈ placed, q.offset + q.type.size ≤ p.offset)
    (h : placed.Pairwise IsBefore) : (p.insert placed).Pairwise IsBefore := by
  induction placed with
  | nil => exact List.pairwise_singleton _ _
  | cons q rest ih =>
    rw [List.forall_mem_cons] at hbelow
    rw [List.pairwise_cons] at h
    have hq := hbelow.1
    rw [insert, if_neg (by omega)]
    split
    case isTrue heq =>
      -- What stands behind `q` would have to lie behind `p` as well.
      have hrest : rest = [] := by
        cases rest with
        | nil => rfl
        | cons r rest =>
          have hr := (h.1 r List.mem_cons_self).1
          have hr' := hbelow.2 r List.mem_cons_self
          omega
      subst hrest
      exact List.pairwise_singleton _ _
    case isFalse hne =>
      refine List.pairwise_cons.mpr ⟨fun r hr => ?_, ih hbelow.2 h.2⟩
      rcases mem_insert hr with rfl | hr
      · exact ⟨by omega, hq⟩
      · exact h.1 r hr

namespace StructBuilder

variable {b : StructBuilder} {offset : Int}

theorem endsBy_empty (policy : OverlapPolicy) : (empty policy).EndsBy 0 :=
  ⟨Int.le_refl 0, nofun, List.Pairwise.nil, nofun⟩

theorem EndsBy.mono (h : b.EndsBy offset) {stop : Int} (hstop : offset ≤ stop) : b.EndsBy stop where
  start := by
    have := h.start
    omega
  inside q hq := by
    have := h.inside q hq
    omega
  apart := h.apart
  parts := h.parts

/-- **One more field** at the offset by which the others end. -/
theorem EndsBy.insert (h : b.EndsBy offset) {name : Text} {l : Layout}
    (hl : l.isWellLaidOut = true) {b' : StructBuilder} (hb : b.insert ⟨offset, name, l⟩ = .ok b') :
    b'.EndsBy (offset + l.size) := by
  have hstart := h.start
  have hplaced := placed_of_insert hb
  refine ⟨by omega, fun q hq => ?_, ?_, fun q hq => ?_⟩
  · rw [hplaced] at hq
    rcases Placement.mem_insert hq with rfl | hq
    · exact ⟨hstart, Int.le_refl _⟩
    · have := h.inside q hq
      omega
  · rw [hplaced]
    exact Placement.apart_insert (fun q hq => (h.inside q hq).2) h.apart
  · rw [hplaced] at hq
    rcases Placement.mem_insert hq with rfl | hq
    · exact hl
    · exact h.parts q hq

/-- Fields one behind another are spaced. -/
theorem fieldsSpaced_of_pairwise {fields : List (Field Layout)}
    (h : fields.Pairwise fun f g => f.offset + f.type.size ≤ g.offset) :
    Layout.fieldsSpaced fields = true := by
  match fields with
  | [] | [_] => rfl
  | f :: g :: rest =>
    rw [List.pairwise_cons] at h
    rw [Layout.fieldsSpaced, Bool.and_eq_true, decide_eq_true_eq]
    exact ⟨h.1 g List.mem_cons_self, fieldsSpaced_of_pairwise h.2⟩

/-- **The finished struct** is well laid out. -/
theorem EndsBy.build (h : b.EndsBy offset) {l : Layout} (hl : b.build = .ok l) :
    l.isWellLaidOut = true := by
  obtain ⟨-, rfl⟩ := Layout.exists_of_ofArranged hl
  refine Layout.everyPart_struct.mpr ⟨fieldsSpaced_of_pairwise ?_, fun f hf => ?_⟩
  · refine List.pairwise_map.mpr (h.apart.imp_of_mem fun {q r} hq _ hqr => ?_)
    have hpos := (h.inside q hq).1
    have hend := hqr.2
    simp only [Placement.field]
    omega
  · obtain ⟨q, hq, rfl⟩ := List.mem_map.mp hf
    exact h.parts q hq

end StructBuilder

/-! ### Declarations -/

namespace Native

/-- The item is made of these pieces: its number is what one of them spells, or its expression is
that of one. -/
def Item.IsOf (pieces : List Piece) : Item → Prop
  | .padding size => ∃ p ∈ pieces, p.literal = .ok (some size)
  | .field _ type => ∃ p ∈ pieces, p.tree = some type

theorem Item.IsOf.mono {pieces pieces' : List Piece} (h : pieces ⊆ pieces') {item : Item}
    (hitem : item.IsOf pieces) : item.IsOf pieces' := by
  cases item <;>
  · obtain ⟨p, hp, hvalue⟩ := hitem
    exact ⟨p, h hp, hvalue⟩

theorem isOf_of_itemsOf {block : Text} {pieces : List Piece} {items : List Item}
    (h : itemsOf block pieces = .ok items) : ∀ item ∈ items, item.IsOf pieces := by
  match pieces with
  | [] =>
    cases h
    exact nofun
  | head :: rest =>
    rw [itemsOf.eq_def] at h
    simp only at h
    split at h
    case isTrue =>
      split at h
      case h_1 => cases h
      case h_2 amount more =>
        obtain ⟨literal, hliteral, h⟩ := exists_of_bind_eq_ok h
        split at h
        case h_1 => cases h
        case h_2 size =>
          obtain ⟨found, hfound, h⟩ := exists_of_bind_eq_ok h
          cases h
          refine List.forall_mem_cons.mpr ⟨⟨amount, by simp, hliteral⟩, fun item hitem => ?_⟩
          exact (isOf_of_itemsOf hfound item hitem).mono (by simp)
    case isFalse =>
      split at h
      case isTrue =>
        split at h
        case h_1 token type more =>
          obtain ⟨found, hfound, h⟩ := exists_of_bind_eq_ok h
          cases h
          refine List.forall_mem_cons.mpr
            ⟨⟨⟨.expr, token, some type⟩, by simp, rfl⟩, fun item hitem => ?_⟩
          exact (isOf_of_itemsOf hfound item hitem).mono (by simp)
        case h_2 => cases h
      case isFalse => cases h

theorem isOf_of_items {pieces : List Piece} {name : Text} {list : List Item}
    (h : items pieces = .ok (name, list)) : ∀ item ∈ list, item.IsOf pieces := by
  cases pieces with
  | nil => cases h
  | cons head rest =>
    obtain ⟨found, hfound, h⟩ := exists_of_bind_eq_ok h
    split at h
    · cases h
    · cases h
      exact fun item hitem => (isOf_of_itemsOf hfound item hitem).mono (List.subset_cons_self _ _)

/-- No padding among the items is negative. -/
def PaddingsNatural (items : List Item) : Prop :=
  ∀ size, Item.padding size ∈ items → 0 ≤ size

theorem paddingsNatural_of_items {pieces : List Piece} {name : Text} {list : List Item}
    (hp : ∀ p ∈ pieces, p.IsNatural) (h : items pieces = .ok (name, list)) :
    PaddingsNatural list := by
  intro size hsize
  obtain ⟨p, hmem, hliteral⟩ := isOf_of_items h _ hsize
  exact hp p hmem size hliteral

variable [Host]

/-- The layout of a field is what its expression gives. -/
theorem gives_fieldLayout {p : Layout → Bool} {block name : Text} {evaluate : Run Value}
    (h : Gives (·.everyPart p = true) evaluate) :
    Gives (·.everyPart p = true) (fieldLayout block name evaluate) := by
  intro m l m' hm
  rw [fieldLayout] at hm
  split at hm
  case h_1 k m₁ hrun =>
    cases hm
    exact h m _ _ hrun
  case h_2 => cases hm
  case h_3 => cases hm

/-- **Placing items** keeps what each of them keeps: of the struct in the making and of the offset
that has been reached. A padding moves the offset, and a field is put in and moves it by its
size. -/
theorem gives_place_of_step {p : Layout → Bool} {P : StructBuilder → Int → Prop} {block : Text}
    {evaluate : Expr → Run Value} (heval : ∀ e, Gives (·.everyPart p = true) (evaluate e))
    {items : List Item}
    (padding : ∀ {b offset size}, .padding size ∈ items → P b offset → P b (offset + size))
    (field : ∀ {b b' offset name type l}, .field name type ∈ items → P b offset →
      l.everyPart p = true → b.insert ⟨offset, name, l⟩ = .ok b' → P b' (offset + l.size))
    {b : StructBuilder} {offset : Int} (hb : P b offset) :
    Gives (fun b => ∃ stop, P b stop) (place block evaluate b offset items) := by
  induction items generalizing b offset with
  | nil => exact gives_pure ⟨offset, hb⟩
  | cons item rest ih =>
    have hrest : ∀ {b : StructBuilder} {offset : Int}, P b offset →
        Gives (fun b => ∃ stop, P b stop) (place block evaluate b offset rest) :=
      ih (fun h => padding (List.mem_cons_of_mem _ h)) fun h => field (List.mem_cons_of_mem _ h)
    cases item with
    | padding size => exact hrest (padding List.mem_cons_self hb)
    | field name type =>
      refine (gives_fieldLayout (heval type)).bind fun l hl => ?_
      refine (Run.gives_lift fun b' hb' => field List.mem_cons_self hb hl hb').bind fun b' hb' => ?_
      refine (Run.gives_lift fun n hn => Layout.size_eq_of_size? hn).bind fun n hn => ?_
      rw [hn]
      exact hrest hb'

/-- **A declaration makes a well laid out struct** of well laid out layouts. -/
theorem gives_compile {block : Text} {evaluate : Expr → Run Value}
    (heval : ∀ e, Gives (·.everyPart Layout.spaced = true) (evaluate e)) {items : List Item}
    (hitems : PaddingsNatural items) (policy : OverlapPolicy) :
    Gives (·.isWellLaidOut = true) (compile block evaluate policy items) :=
  (gives_place_of_step heval
    (fun hmem hb => hb.mono (Int.le_add_of_nonneg_right (hitems _ hmem)))
    (fun _ hb hl hb' => hb.insert hl hb') (StructBuilder.endsBy_empty policy)).bind
    fun _ ⟨_, hb⟩ => Run.gives_lift fun _ hl => hb.build hl

end Native

end TypedMemory
