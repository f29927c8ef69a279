import TypedMemory.Proofs.Rendering
import TypedMemory.Proofs.Report
import TypedMemory.Proofs.Script.Lexemes
import TypedMemory.Proofs.Script.Outcome

/-!
# What scripts show of layouts

Wherever a layout is shown it is by the same text: as a script makes it a text, in a report on a
struct, and in the JSON of a value, be it the value itself or what an address points to. This text
tells any two layouts apart that scripts can make (`TypedMemory.Engine.shown_apart`), for scripts
name the fields of structs by identifiers, and there is no other way to come by a struct.

The names of fields are not kept by every form of statements. They come from the tokens of a
declaration, so it has to be known that the pieces which are performed have been parsed.
-/

namespace TypedMemory

open Effect

/-! ### The names of fields -/

/-- A token that is a name looks like one. -/
theorem Token.IsSpelled.isIdentifier_text {t : Token} (ht : t.IsSpelled) (hkind : t.kind = .name) :
    isIdentifier t.text = true := by
  have hspellings : ∀ s ∈ spellings, s.2 ≠ .name := by decide
  have h := ht.isLexeme
  rw [hkind] at h
  generalize t.text = text at h
  cases h with
  | fixed mem => exact absurd rfl (hspellings _ mem)
  | name start parts free => rw [isIdentifier, start, List.all_eq_true.mpr parts, Bool.and_self]

namespace Native

/-- **The fields of a declaration** that has been parsed have identifiers for names. -/
theorem isIdentifier_of_items {d : Grammar.Declaration} (hd : ∀ t ∈ d.tokens, t.IsSpelled)
    {block : Text} {list : List Item} (h : items d.pieces = .ok (block, list)) {name : Text}
    {type : Expr} (hmem : .field name type ∈ list) : Token.isIdentifier name = true := by
  rw [items_pieces hd] at h
  obtain ⟨made, hmade, h⟩ := exists_of_bind_eq_ok h
  cases h
  obtain ⟨i, hi, hmade⟩ := exists_of_mapM_eq_ok hmade hmem
  cases i with
  | padding mark amount =>
    rw [Grammar.Item.made] at hmade
    split at hmade <;> cases hmade
  | field word colon type =>
    cases hmade
    exact (hd word.1 (d.mem_tokens hi List.mem_cons_self)).isIdentifier_text word.kind_eq

end Native

/-! ### Scripts -/

namespace Layout

theorem concernsStructs_readable : ConcernsStructs isReadable where
  other l hstruct hforeign := by
    cases l with
    | struct fields => cases hstruct
    | foreign v => cases hforeign
    | _ => rfl
  tagged l n h := by
    have hnames : ∀ (fields : List (Field Layout)) (n : Nat),
        ((fieldsTagged fields n).1.all fun f => Token.isIdentifier f.name) =
          fields.all fun f => Token.isIdentifier f.name := by
      intro fields
      induction fields with
      | nil => exact fun n => rfl
      | cons f rest ih =>
        intro n
        rw [fieldsTagged_cons, List.all_cons, List.all_cons, ih]
    cases l with
    | struct fields => exact (hnames fields n).trans h
    | foreign v => cases h
    | _ => rfl

end Layout

variable {options : Options} {s : Scope}

/-- The fields of a struct in the making have identifiers for names, and so has all inside them. -/
def StructBuilder.IsReadable (b : StructBuilder) : Prop :=
  ∀ q ∈ b.placed, Token.isIdentifier q.name = true ∧ q.type.everyPart Layout.isReadable = true

namespace StructBuilder.IsReadable

variable {b b' : StructBuilder}

theorem insert (h : b.IsReadable) {p : Placement} (hname : Token.isIdentifier p.name = true)
    (htype : p.type.everyPart Layout.isReadable = true) (hb : b.insert p = .ok b') :
    b'.IsReadable := by
  intro q hq
  rw [placed_of_insert hb] at hq
  rcases Placement.mem_insert hq with rfl | hq
  · exact ⟨hname, htype⟩
  · exact h q hq

theorem build (h : b.IsReadable) {l : Layout} (hl : b.build = .ok l) :
    l.everyPart Layout.isReadable = true := by
  obtain ⟨-, rfl⟩ := Layout.exists_of_ofArranged hl
  rw [Layout.everyPart_struct, Layout.isReadable, List.all_eq_true, List.forall_mem_map,
    List.forall_mem_map]
  exact ⟨fun q hq => (h q hq).1, fun q hq => (h q hq).2⟩

end StructBuilder.IsReadable

/-- A declaration that has been parsed makes a struct of which the fields have identifiers for
names. -/
theorem Native.gives_declare_readable [Host] (hs : s.EveryPart Layout.isReadable)
    {d : Grammar.Declaration} (hd : ∀ t ∈ d.tokens, t.IsSpelled) :
    Gives (EveryPartOfResult Layout.isReadable) (declare options s d.pieces) := by
  refine gives_declare Layout.concernsStructs_readable hs fun hitems => ?_
  refine (gives_place_of_step (P := fun b _ => b.IsReadable)
    (Expr.gives_eval Layout.concernsStructs_readable hs) (fun _ hb => hb) (fun hmem hb hl hb' => ?_)
    fun _ hq => absurd hq List.not_mem_nil).bind fun b ⟨_, hb⟩ => Run.gives_lift fun l => hb.build
  exact hb.insert (isIdentifier_of_items hd hitems hmem) hl hb'

namespace Engine

variable [Host]

/-- A statement other than a declaration does not depend on the forms that the engine knows. -/
theorem gives_execute_readable (hs : s.EveryPart Layout.isReadable) {st : Statement}
    (hparsed : st.IsParsed) (hnatural : st.IsNatural) :
    Gives (EveryPartOfResult Layout.isReadable) ((standard options).execute s st) := by
  have hplain : Gives (EveryPartOfResult Layout.isReadable)
      ((⟨options, []⟩ : Engine).execute s st) :=
    gives_execute Layout.concernsStructs_readable (fun _ hc => absurd hc List.not_mem_nil) hs
      hnatural
  cases st with
  | binding name value => exact hplain
  | expression value => exact hplain
  | custom keyword pieces =>
    obtain ⟨rfl, d, rfl, hd⟩ := hparsed
    exact Native.gives_declare_readable hs hd

/-- **Scripts name fields by identifiers**: from a scope where all structs have such names, and
nothing but layouts stands in the place of layouts, a run comes to such a value and such a scope. -/
theorem gives_run_readable (t : Text) (hs : s.EveryPart Layout.isReadable) :
    Gives (EveryPartOfResult Layout.isReadable) ((standard options).run t s) :=
  gives_run_of_execute (fun _ hparse st hst _ hs => gives_execute_readable hs
    (isParsed_of_parse hparse st hst) (Statement.isNatural_of_parse hparse st hst)) hs

end Engine

/-! ### What is shown -/

namespace Layout

section Shown

variable [Host] {a b : Layout}

/-- A layout as a script makes it a text, alone or behind an address. -/
theorem toldApart_toText (ha : a.everyPart isReadable = true) (hb : b.everyPart isReadable = true) :
    ToldApart (fun l => Value.call "to_string" [.type l]) a b ∧
    ∀ location tag, ToldApart (fun l => Value.call "to_string" [.pointer l location tag]) a b := by
  refine ⟨toldApart_of_describe (f := Value.text) (fun s t => Value.text.inj) (fun l => rfl) ha hb,
    fun location tag => toldApart_of_describe
      (f := fun t => .text ("TypedPointer(" ++ t ++ ", " ++ Numeral.hex location ++ ")"))
      (fun s t h => ?_) (fun l => ?_) ha hb⟩
  · simpa using h
  · change (shownUnless l.renderFault? _).map Value.text = (shownUnless l.renderFault? _).map _
    cases l.renderFault? <;> rfl

/-- A layout in the JSON of a value, alone or behind an address. -/
theorem toldApart_plain (ha : a.everyPart isReadable = true) (hb : b.everyPart isReadable = true) :
    ToldApart (fun l => Json.plain (.type l)) a b ∧
    ∀ location tag, ToldApart (fun l => Json.plain (.pointer l location tag)) a b := by
  refine ⟨toldApart_of_describe (f := Value.text) (fun s t => Value.text.inj) (fun l => rfl) ha hb,
    fun location tag => toldApart_of_describe
      (f := fun t => .record [⟨"type", .text t⟩, ⟨"address", .text (Numeral.hex location)⟩])
      (fun s t h => ?_) (fun l => ?_) ha hb⟩
  · simpa using h
  · change (l.describe >>= fun t => _) = _
    cases l.describe <;> rfl

end Shown

/-- A length with more digits than are ever written: the layout equals itself, and there is no text
for it. -/
theorem not_shown_of_unspellable :
    let l : Layout := .text (wordCount 16384)
    l.everyPart isReadable = true ∧ l.equal l = true ∧
      l.describe = .error (.failure .longNumeral) ∧
      ¬∀ a b : Layout, a.everyPart isReadable = true → b.everyPart isReadable = true →
        ((∃ t, a.describe = .ok t ∧ b.describe = .ok t) ↔ a.equal b = true) := by
  intro l
  have hequal : l.equal l = true := equal_self rfl
  have hlong : l.describe = .error (.failure .longNumeral) := by
    have hnot : Numeral.isSpellable (wordCount 16384 : Nat) = false := by decide +kernel
    rw [describe, renderFault?, numeralFault?, hnot]
    rfl
  refine ⟨rfl, hequal, hlong, fun h => ?_⟩
  obtain ⟨t, ht, -⟩ := (h l l rfl rfl).mpr hequal
  cases hlong.symm.trans ht

end Layout

/-- **Layouts are told apart by what is shown of them.** Of two layouts whose structs have
identifiers for names of their fields, each can be shown if scripts have words for all of its parts,
and otherwise the failure is that of a number which is too long. Where both can be shown, the texts
are the same exactly if the layouts are equal; and so is what else shows them: the text that a
script makes, the JSON of a value, and the types in a report. Every layout is of this kind that a
run comes to from a scope of such layouts. -/
theorem Engine.shown_apart [Host] (options : Options) {a b : Layout}
    (ha : a.everyPart Layout.isReadable = true) (hb : b.everyPart Layout.isReadable = true) :
    ((∃ t, a.describe = .ok t) ↔ a.everyPart Layout.isSayable = true) ∧
    (∀ e, a.describe = .error e ↔
      a.everyPart Layout.isSayable = false ∧ e = .failure .longNumeral) ∧
    Layout.ToldApart Layout.describe a b ∧
    (Layout.ToldApart (fun l => Value.call "to_string" [.type l]) a b ∧
      ∀ location tag,
        Layout.ToldApart (fun l => Value.call "to_string" [.pointer l location tag]) a b) ∧
    (Layout.ToldApart (fun l => Json.plain (.type l)) a b ∧
      ∀ location tag, Layout.ToldApart (fun l => Json.plain (.pointer l location tag)) a b) ∧
    (∀ name fields r, LayoutReport.ofStruct name (.struct fields) = .ok r →
      (r.fields.map fun f => .ok f.type) = fields.map fun f => f.type.describe) ∧
    ∀ (t : Text) (s : Scope) (m : Machine) (v : Value) (s' : Scope) (m' : Machine),
      s.EveryPart Layout.isReadable → (standard options).run t s m = (.ok (v, s'), m') →
        v.everyPart Layout.isReadable = true ∧ s'.EveryPart Layout.isReadable := by
  refine ⟨Layout.describe_eq_ok_iff.trans Layout.renderFault?_eq_none_iff,
    fun e => Layout.describe_eq_error_iff (Layout.isGenuine_of_readable ha),
    Layout.toldApart_of_describe Function.injective_id (fun l => ?_) ha hb,
    Layout.toldApart_toText ha hb, Layout.toldApart_plain ha hb,
    fun name fields r hr => LayoutReport.map_type_fieldReports (LayoutReport.ofStruct_eq_ok hr).1,
    fun t s m v s' m' hs hrun => gives_run_readable t hs m (v, s') m' hrun⟩
  cases l.describe <;> rfl

/-- A struct inside of a collection, and the one that has its count as an offset. -/
theorem Engine.shown_apart_nested :
    let a : Layout := .collection (.struct [⟨0, "x", .integer .uint8⟩]) 2
    let b : Layout := .struct [⟨2, "x", .collection (.struct []) 0⟩]
    a.describe = .ok "Collection(Struct { 0: x: UInt8 }, 2)" ∧
      b.describe = .ok "Struct { 2: x: Collection(Struct {}, 0) }" ∧
      a.equal b = false := by
  intro a b
  have hda : a.describe = .ok "Collection(Struct { 0: x: UInt8 }, 2)" := by rfl
  have hdb : b.describe = .ok "Struct { 2: x: Collection(Struct {}, 0) }" := by rfl
  obtain ⟨-, -, hapart, -⟩ := Engine.shown_apart {} (a := a) (b := b) (by decide) (by decide)
  refine ⟨hda, hdb, Bool.eq_false_iff.mpr fun hequal => ?_⟩
  have hsame := (hapart _ _ hda hdb).mpr hequal
  exact absurd hsame (by decide +kernel)

end TypedMemory
