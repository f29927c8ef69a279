import TypedMemory.Proofs.Script.Failures
import TypedMemory.Proofs.Script.Items
import TypedMemory.Proofs.Script.WellLaidOut

/-!
# Declarations with numbers that are too long

Expressions tell every failure as one of this library's own. Declarations are performed outside of
expressions, and whatever is foreign there comes out as it is. There are three places for that, and
all of them have to do with a number that is too long to be read or to be spelled
(`TypedMemory.Native.Overlong`): a padding, the offset at which a field is refused, and the size of
the whole, which is spelled in a note. `TypedMemory.Native.declare_foreign_iff` says that there are
no others.

For the offset it has to be told how far the items have been placed when the field is refused. This
is `TypedMemory.Native.reach`, which goes the way of `TypedMemory.Native.place` up to there.
-/

namespace TypedMemory

open Effect

variable {options : Options}

/-! ### Placing items -/

namespace StructBuilder

/-- The fields of a struct in the making are layouts, at offsets that are not negative, and so is
the offset that has been reached. -/
structure IsProper (b : StructBuilder) (offset : Int) : Prop where
  start : 0 ≤ offset
  inside : ∀ q ∈ b.placed, 0 ≤ q.offset ∧ q.type.everyPart Layout.isProper = true

namespace IsProper

variable {b b' : StructBuilder} {offset : Int}

theorem mono (h : b.IsProper offset) {stop : Int} (hstop : offset ≤ stop) : b.IsProper stop :=
  ⟨Int.le_trans h.start hstop, h.inside⟩

theorem insert (h : b.IsProper offset) {name : Text} {l : Layout}
    (hl : l.everyPart Layout.isProper = true) (hb : b.insert ⟨offset, name, l⟩ = .ok b') :
    b'.IsProper (offset + l.size) := by
  refine (IsProper.mk h.start fun q hq => ?_).mono (by omega)
  rw [placed_of_insert hb] at hq
  rcases Placement.mem_insert hq with rfl | hq
  · exact ⟨h.start, hl⟩
  · exact h.inside q hq

/-- It can be finished, and then is a layout. -/
theorem exists_build (h : b.IsProper offset) :
    ∃ l, b.build = .ok l ∧ l.everyPart Layout.isProper = true := by
  refine ⟨_, Layout.ofArranged_eq_ok fun q hq => (h.inside q hq).1, ?_⟩
  refine Layout.everyPart_struct.mpr ⟨rfl, fun f hf => ?_⟩
  obtain ⟨q, hq, rfl⟩ := List.mem_map.mp hf
  exact (h.inside q hq).2

end IsProper

end StructBuilder

/-- That a part is a layout is no matter of its fields, and not of tags. -/
theorem Layout.concernsStructs_proper : ConcernsStructs isProper where
  other l _ hforeign := by rw [isProper, hforeign]; rfl
  tagged l n h := by
    cases l with
    | foreign v => cases h
    | _ => rfl

/-- The failure to refuse a field is a foreign one only where its offset cannot be spelled. -/
theorem StructBuilder.insert_foreign_iff {b : StructBuilder} {p : Placement} {e : Error} :
    b.insert p = .error e ∧ e.isOwn = false ↔
      (b.policy = .reject ∧ ∃ old, b.at? p.offset = some old) ∧
        Numeral.isSpellable p.offset = false ∧ e = .failure .longNumeral := by
  have hraised : ∀ old : Text, (Error.overlap p.name old p.offset).raised =
      if Numeral.isSpellable p.offset then .overlap p.name old p.offset
      else .failure .longNumeral := by simp [Error.raised, Error.numerals]
  rw [insert_eq_error_iff]
  constructor
  · rintro ⟨⟨hpolicy, old, hold, rfl⟩, he⟩
    rw [hraised] at he ⊢
    split at he
    · cases he
    · next hlong => exact ⟨⟨hpolicy, old, hold⟩, by simpa using hlong, if_neg hlong⟩
  · rintro ⟨⟨hpolicy, old, hold⟩, hlong, rfl⟩
    refine ⟨⟨hpolicy, old, hold, ?_⟩, rfl⟩
    rw [hraised, hlong]
    rfl

namespace Native

section Place

variable [Host] {block : Text} {evaluate : Expr → Run Value}

/-- Place items, and tell the offset that has been reached behind them. -/
def reach (block : Text) (evaluate : Expr → Run Value) :
    StructBuilder → Int → List Item → Run (StructBuilder × Int)
  | b, offset, [] => pure (b, offset)
  | b, offset, .padding size :: rest => reach block evaluate b (offset + size) rest
  | b, offset, .field name type :: rest => do
    let l ← fieldLayout block name (evaluate type)
    let b ← Run.lift (b.insert ⟨offset, name, l⟩)
    let size ← Run.lift l.size?
    reach block evaluate b (offset + size) rest

/-- Items behind others are placed from the offset on that those have reached. -/
theorem place_append (b : StructBuilder) (offset : Int) (front back : List Item) :
    place block evaluate b offset (front ++ back) =
      reach block evaluate b offset front >>= fun r => place block evaluate r.1 r.2 back := by
  induction front generalizing b offset with
  | nil => exact (pure_bind (b, offset) fun r => place block evaluate r.1 r.2 back).symm
  | cons item rest ih =>
    cases item with
    | padding size => exact ih b (offset + size)
    | field name type => simp only [List.cons_append, place, reach, bind_assoc, ih]

/-- The policy does not change. -/
theorem gives_reach_policy (b : StructBuilder) (offset : Int) (items : List Item) :
    Gives (fun r => r.1.policy = b.policy) (reach block evaluate b offset items) := by
  induction items generalizing b offset with
  | nil => exact gives_pure rfl
  | cons item rest ih =>
    cases item with
    | padding size => exact ih b (offset + size)
    | field name type =>
      refine Run.gives_after fun l => ?_
      have hinsert : Gives (fun b' : StructBuilder => b'.policy = b.policy)
          (Run.lift (b.insert ⟨offset, name, l⟩)) := Run.gives_lift fun b' hb' => by
        rw [StructBuilder.insert] at hb'
        split at hb'
        · cases hb'
        · cases hb'
          rfl
      refine hinsert.bind fun b' hb' => Run.gives_after fun size => ?_
      rw [← hb']
      exact ih b' (offset + size)

/-- Where the expression of a field fails, or gives no layout, this is told as the library's own
failure. -/
theorem failsOnly_fieldLayout {name : Text} {x : Run Value}
    (h : FailsOnly Error.IsOwnBehindParsing x) :
    FailsOnly Error.IsOwnBehindParsing (fieldLayout block name x) := by
  intro m e m' hm
  rw [fieldLayout] at hm
  split at hm
  · cases hm
  · cases hm
    exact ⟨rfl, rfl⟩
  · next e' m₁ hx =>
    cases hm
    rw [if_pos (h m e' _ hx).1]
    exact ⟨rfl, rfl⟩

theorem neverParses_place (heval : ∀ e, FailsOnly Error.IsOwnBehindParsing (evaluate e))
    (b : StructBuilder) (offset : Int) (items : List Item) :
    FailsOnly (fun e => e.isParse = false) (place block evaluate b offset items) := by
  induction items generalizing b offset with
  | nil => exact failsOnly_pure
  | cons item rest ih =>
    cases item with
    | padding size => exact ih b (offset + size)
    | field name type =>
      refine FailsOnly.bind (fun m e m' h => (failsOnly_fieldLayout (heval type) m e m' h).2)
        fun l => FailsOnly.bind (Run.failsOnly_lift fun e he => ?_) fun b' =>
          (Run.failsOnly_lift l.noParse_size?).bind fun size => ih b' (offset + size)
      obtain ⟨-, old, -, rfl⟩ := StructBuilder.insert_eq_error_iff.mp he
      exact Error.isParse_raised rfl

/-- **When placing items fails in a foreign way**: some of them are placed, and then a field is
refused in such a way. -/
theorem place_foreign_iff (heval : ∀ e, FailsOnly Error.IsOwnBehindParsing (evaluate e))
    (hgives : ∀ e, Gives (·.everyPart Layout.isProper = true) (evaluate e)) {b : StructBuilder}
    {offset : Int} {items : List Item} {m : Machine} {e : Error} :
    (place block evaluate b offset items m).1 = .error e ∧ e.isOwn = false ↔
      ∃ front name type back r m₁ l m₂, items = front ++ .field name type :: back ∧
        reach block evaluate b offset front m = (.ok r, m₁) ∧
        fieldLayout block name (evaluate type) m₁ = (.ok l, m₂) ∧
        r.1.insert ⟨r.2, name, l⟩ = .error e ∧ e.isOwn = false := by
  constructor
  case mpr =>
    rintro ⟨front, name, type, back, r, m₁, l, m₂, rfl, hreach, hlayout, hrefused, he⟩
    have hfield : place block evaluate r.1 r.2 (.field name type :: back) m₁ = (.error e, m₂) :=
      (bind_of_ok hlayout).trans (bind_of_error (by rw [hrefused]; rfl))
    rw [place_append, bind_of_ok hreach, hfield]
    exact ⟨rfl, he⟩
  case mp =>
    rintro ⟨hfails, he⟩
    induction items generalizing b offset m with
    | nil => cases hfails
    | cons item rest ih =>
      cases item with
      | padding size =>
        obtain ⟨front, name, type, back, r, m₁, l, m₂, rfl, hreach, hrest⟩ := ih hfails
        exact ⟨.padding size :: front, name, type, back, r, m₁, l, m₂, rfl, hreach, hrest⟩
      | field name type =>
        rcases or_of_bind_error (Prod.ext hfails rfl) with h | ⟨l, m₁, hlayout, h⟩
        · have hown := (failsOnly_fieldLayout (heval type) m e _ h).1
          cases hown.symm.trans he
        rcases or_of_bind_error h with h | ⟨b', m₂, hinsert, h⟩
        · exact ⟨[], name, type, rest, (b, offset), m, l, m₁, rfl, rfl, hlayout,
            congrArg Prod.fst h, he⟩
        have hl := gives_fieldLayout (hgives type) m l m₁ hlayout
        have hsize : Run.lift l.size? m₂ = (.ok l.size, m₂) := by
          rw [Layout.size?_eq_ok (Layout.isGenuine_of_everyPart hl)]
          rfl
        rw [bind_of_ok hsize] at h
        obtain ⟨front, name', type', back, r, m₃, l', m₄, rfl, hreach, hrest⟩ :=
          ih (congrArg Prod.fst h)
        refine ⟨.field name type :: front, name', type', back, r, m₃, l', m₄, rfl, ?_, hrest⟩
        rw [reach, bind_of_ok hlayout, bind_of_ok hinsert, bind_of_ok hsize]
        exact hreach

/-- What is placed is a layout, if what the expressions give is. -/
theorem gives_place_proper {items : List Item}
    (hgives : ∀ e, Gives (·.everyPart Layout.isProper = true) (evaluate e))
    (hitems : PaddingsNatural items) (policy : OverlapPolicy) :
    Gives (fun b => ∃ stop, b.IsProper stop) (place block evaluate (.empty policy) 0 items) :=
  gives_place_of_step hgives (fun hmem hb => hb.mono (Int.le_add_of_nonneg_right (hitems _ hmem)))
    (fun _ hb hl hb' => hb.insert hl hb') ⟨Int.le_refl 0, nofun⟩

theorem gives_compile_proper {items : List Item}
    (hgives : ∀ e, Gives (·.everyPart Layout.isProper = true) (evaluate e))
    (hitems : PaddingsNatural items) (policy : OverlapPolicy) :
    Gives (·.everyPart Layout.isProper = true) (compile block evaluate policy items) := by
  refine (gives_place_proper hgives hitems policy).bind fun b ⟨stop, hb⟩ =>
    Run.gives_lift fun l hl => ?_
  obtain ⟨l', hl', hproper⟩ := hb.exists_build
  cases hl.symm.trans hl'
  exact hproper

/-- The struct of what has been placed can be made, so that only placing can fail. -/
theorem compile_eq_error_iff {items : List Item}
    (hgives : ∀ e, Gives (·.everyPart Layout.isProper = true) (evaluate e))
    (hitems : PaddingsNatural items) {policy : OverlapPolicy} {m : Machine} {e : Error} :
    (compile block evaluate policy items m).1 = .error e ↔
      (place block evaluate (.empty policy) 0 items m).1 = .error e := by
  rw [compile, bind_apply]
  rcases hplace : place block evaluate (.empty policy) 0 items m with ⟨r, m₁⟩
  cases r with
  | error e' =>
    constructor <;>
    · intro h
      cases h
      rfl
  | ok b =>
    obtain ⟨stop, hb⟩ := gives_place_proper hgives hitems policy m b m₁ hplace
    obtain ⟨l, hl, -⟩ := hb.exists_build
    simp [Run.lift, hl]

end Place

variable [Host] {s : Scope}

theorem keeps_proper : customSyntax.Keeps Layout.isProper :=
  keeps_of_compile Layout.concernsStructs_proper gives_compile_proper

/-- Performing a declaration never fails as one that does not parse. -/
theorem neverParses_declare {d : Grammar.Declaration} (hd : ∀ t ∈ d.tokens, t.IsSpelled) :
    FailsOnly (fun e => e.isParse = false) (declare options s d.pieces) := by
  have hitems : NoParse (items d.pieces) := fun e he => by
    rw [((items_eq_error_iff hd).mp he).1]
    rfl
  have hbuild : ∀ b : StructBuilder, NoParse b.build := fun b => by
    rw [StructBuilder.build, Layout.ofArranged]
    split
    · exact .fail rfl
    · exact .ok _
  refine (Run.failsOnly_lift hitems).bind fun r => FailsOnly.bind ?_ fun l =>
    (Run.failsOnly_lift l.noParse_size?).bind fun size =>
      (Run.failsOnly_lift (NoParse.spellable _)).bind fun _ =>
        (Run.failsOnly_note _).bind fun _ => failsOnly_pure
  exact (neverParses_place Expr.failsOnly_eval _ _ _).bind fun b => Run.failsOnly_lift (hbuild b)

/-! ### Numbers that are too long -/

/-- **A declaration meets a number that is too long** to be read or to be spelled, and fails with
this failure, in the scope and with the machine that it is performed on. -/
inductive Overlong (options : Options) (s : Scope) (pieces : List Piece) (m : Machine) :
    Error → Prop
  /-- A padding has more digits than are read. -/
  | padding {p : Piece} (mem : p ∈ pieces) (long : p.IsOverlong) :
      Overlong options s pieces m (.failure .badValue)
  /-- A field is refused because there is one at its offset, and this cannot be spelled. -/
  | offset {block name : Text} {front back : List Item} {type : Expr} {b : StructBuilder}
      {offset : Int} {old : Placement} {l : Layout} {m₁ m₂ : Machine}
      (items : items pieces = .ok (block, front ++ .field name type :: back))
      (reached : reach block (fun e => e.eval options s) (.empty options.policy) 0 front m =
        (.ok (b, offset), m₁))
      (layout : fieldLayout block name (type.eval options s) m₁ = (.ok l, m₂))
      (policy : options.policy = .reject) (taken : b.at? offset = some old)
      (long : Numeral.isSpellable offset = false) :
      Overlong options s pieces m (.failure .longNumeral)
  /-- The struct is made, and its size cannot be spelled. -/
  | size {block : Text} {list : List Item} {l : Layout} {m₁ : Machine}
      (items : items pieces = .ok (block, list))
      (made : compile block (fun e => e.eval options s) options.policy list m = (.ok l, m₁))
      (long : Numeral.isSpellable l.size = false) :
      Overlong options s pieces m (.failure .longNumeral)

/-- Once there are items, declaring is making their struct and spelling its size. -/
theorem declare_foreign_iff_of_items {pieces : List Piece} {block : Text} {list : List Item}
    (hitems : items pieces = .ok (block, list)) (hlist : PaddingsNatural list)
    (hs : s.EveryPart Layout.isProper) {m : Machine} {e : Error} :
    (declare options s pieces m).1 = .error e ∧ e.isOwn = false ↔
      ((compile block (fun e => e.eval options s) options.policy list m).1 = .error e ∧
        e.isOwn = false) ∨
      ∃ l m₁, compile block (fun e => e.eval options s) options.policy list m = (.ok l, m₁) ∧
        Numeral.isSpellable l.size = false ∧ e = .failure .longNumeral := by
  have hfirst : Run.lift (items pieces) m = (.ok (block, list), m) := by
    rw [hitems]
    rfl
  rw [declare, bind_of_ok hfirst]
  dsimp only
  rcases hmade : compile block (fun e => e.eval options s) options.policy list m with ⟨r, m₁⟩
  cases r with
  | error e' =>
    rw [bind_of_error hmade]
    constructor
    · rintro ⟨⟨⟩, he⟩
      exact .inl ⟨rfl, he⟩
    · rintro (⟨⟨⟩, he⟩ | ⟨l, m₂, ⟨⟩, -⟩)
      exact ⟨rfl, he⟩
  | ok l =>
    have hproper := gives_compile_proper
      (fun e => Expr.gives_eval Layout.concernsStructs_proper hs e) hlist _ m l m₁ hmade
    have hsize : Run.lift l.size? m₁ = (.ok l.size, m₁) := by
      rw [Layout.size?_eq_ok (Layout.isGenuine_of_everyPart hproper)]
      rfl
    rw [bind_of_ok hmade, bind_of_ok hsize]
    constructor
    · rintro ⟨h, -⟩
      rcases or_of_bind_error (Prod.ext h rfl) with h | ⟨-, m₂, -, h⟩
      · exact .inr ⟨l, m₁, rfl, spellable_eq_error_iff.mp (congrArg Prod.fst h)⟩
      · cases h
    · rintro (⟨⟨⟩, -⟩ | ⟨l', m₂, ⟨⟩, hlong, rfl⟩)
      have hspell : Run.lift (spellable l.size) m₁ = (.error (.failure .longNumeral), m₁) := by
        rw [spellable_eq_error_iff.mpr ⟨hlong, rfl⟩]
        rfl
      rw [bind_of_error hspell]
      exact ⟨rfl, rfl⟩

/-- **When performing a declaration fails in a foreign way**: it meets a number that is too
long. -/
theorem declare_foreign_iff {d : Grammar.Declaration} (hd : ∀ t ∈ d.tokens, t.IsSpelled)
    (hn : ∀ p ∈ d.pieces, p.IsNatural) (hs : s.EveryPart Layout.isProper) {m : Machine}
    {e : Error} :
    (declare options s d.pieces m).1 = .error e ∧ e.isOwn = false ↔
      Overlong options s d.pieces m e := by
  have hgives : ∀ e : Expr, Gives (·.everyPart Layout.isProper = true) (e.eval options s) :=
    fun e => Expr.gives_eval Layout.concernsStructs_proper hs e
  cases hitems : items d.pieces with
  | error e' =>
    obtain ⟨rfl, p, hp, hlong⟩ := (items_eq_error_iff hd).mp hitems
    have hfails : declare options s d.pieces m = (.error (.failure .badValue), m) :=
      bind_of_error (by rw [hitems]; rfl)
    rw [hfails]
    constructor
    · rintro ⟨h, -⟩
      cases h
      exact .padding hp hlong
    · intro h
      cases h with
      | padding => exact ⟨rfl, rfl⟩
      | offset hitems' | size hitems' => cases hitems.symm.trans hitems'
  | ok r =>
    obtain ⟨block, list⟩ := r
    have hlist := paddingsNatural_of_items hn hitems
    rw [declare_foreign_iff_of_items hitems hlist hs, compile_eq_error_iff hgives hlist,
      place_foreign_iff Expr.failsOnly_eval hgives]
    constructor
    · rintro (⟨front, name, type, back, ⟨b, offset⟩, m₁, l, m₂, rfl, hreach, hlayout, hrefused⟩ |
        ⟨l, m₁, hmade, hlong, rfl⟩)
      · obtain ⟨⟨hpolicy, old, hold⟩, hlong, rfl⟩ :=
          StructBuilder.insert_foreign_iff.mp hrefused
        have hsame : b.policy = options.policy := gives_reach_policy _ 0 front m _ m₁ hreach
        exact .offset hitems hreach hlayout (hsame ▸ hpolicy) hold hlong
      · exact .size hitems hmade hlong
    · intro h
      cases h with
      | padding hp hlong =>
        cases hitems.symm.trans ((items_eq_error_iff hd).mpr ⟨rfl, _, hp, hlong⟩)
      | offset hitems' hreach hlayout hpolicy hold hlong =>
        cases hitems.symm.trans hitems'
        have hsame := gives_reach_policy _ 0 _ m _ _ hreach
        exact .inl ⟨_, _, _, _, _, _, _, _, rfl, hreach, hlayout,
          StructBuilder.insert_foreign_iff.mpr ⟨⟨hsame.trans hpolicy, _, hold⟩, hlong, rfl⟩⟩
      | size hitems' hmade hlong =>
        cases hitems.symm.trans hitems'
        exact .inr ⟨_, _, hmade, hlong, rfl⟩

end Native

end TypedMemory
