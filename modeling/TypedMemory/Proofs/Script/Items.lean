import TypedMemory.Proofs.Script.Joining
import TypedMemory.Proofs.Script.Lexemes

/-!
# The items of a declaration

A declaration is parsed by its form, piece by piece, and only when it is performed are its pieces
made into items. What has been parsed always falls into items: in the order in which they are
written, each item is made of its own pieces and of no others
(`TypedMemory.Native.itemsOf_pieces_append`). So none of the refusals for pieces that do not fit
together is ever met. The one thing that can still go wrong is a padding with more decimal digits
than are ever read (`TypedMemory.Native.items_eq_error_iff`), for the parser does not read numerals.
-/

namespace TypedMemory

/-! ### Reading the numerals of a script -/

namespace Numeral

/-- A row of digits is read as the number that it spells. -/
theorem grouped?_eq {base : Nat} {t : Text} (h : ∀ c ∈ t, ∃ d, c.hexDigit? = some d ∧ d < base)
    (n : Nat) {flag : Bool} (hflag : flag = true ∨ t ≠ []) :
    grouped? base n flag t = some (t.foldl (fun n c => n * base + c.hexDigit?.getD 0) n) := by
  induction t generalizing n flag with
  | nil => simp [grouped?, hflag.resolve_right (not_not_intro rfl)]
  | cons c rest ih =>
    obtain ⟨⟨d, hd, hlt⟩, hrest⟩ := List.forall_mem_cons.mp h
    have hunderscore : c ≠ '_' := by
      rintro rfl
      have hnone : CodePoint.hexDigit? '_' = none := by decide
      cases hnone.symm.trans hd
    rw [grouped?, if_neg hunderscore, hd]
    dsimp only
    rw [if_pos hlt, ih hrest _ (.inl rfl), List.foldl_cons, hd]
    rfl

/-- No blank and no sign, and stands for itself, as all basic letters and digits do. -/
def IsPlain (c : CodePoint) : Prop := 48 ≤ c.val ∧ c.val < 128

theorem isPlain_of_hexDigit? {c : CodePoint} {d : Nat} (h : c.hexDigit? = some d) :
    IsPlain c ∧ d < 16 := by
  rw [CodePoint.hexDigit?, CodePoint.isDigit] at h
  simp only [Bool.and_eq_true, decide_eq_true_eq] at h
  split at h
  · cases h
    exact ⟨⟨by omega, by omega⟩, by omega⟩
  split at h
  · cases h
    exact ⟨⟨by omega, by omega⟩, by omega⟩
  split at h
  · cases h
    exact ⟨⟨by omega, by omega⟩, by omega⟩
  · cases h

/-- A plain numeral is read as it is. -/
theorem read?_of_plain {radix : Radix} {t : Text} (h : ∀ c ∈ t, IsPlain c) (hne : t ≠ []) :
    read? radix t = (unsigned? radix t).map Int.ofNat := by
  have hfold : t.map fold = t :=
    (List.map_congr_left fun c hc => if_pos (h c hc).2).trans (List.map_id t)
  have hblank : ∀ c ∈ t, ¬isBlank c = true := by
    intro c hc
    have := (h c hc).1
    simp [isBlank]
    omega
  have htrim : ∀ s : Text, (∀ c ∈ s, ¬isBlank c = true) → s.dropWhile isBlank = s := by
    intro s hs
    cases s with
    | nil => rfl
    | cons c s => exact List.dropWhile_cons_of_neg (hs c List.mem_cons_self)
  have hback := htrim t.reverse fun c hc => hblank c (List.mem_reverse.mp hc)
  obtain ⟨c, rest, rfl⟩ := List.exists_cons_of_ne_nil hne
  have hc := (h c List.mem_cons_self).1
  have hsign : c ≠ '-' ∧ c ≠ '+' := by
    constructor <;> rintro rfl <;> revert hc <;> decide
  simp only [read?, hfold, htrim _ hblank, hback, List.reverse_reverse]
  rw [if_neg hsign.1, if_neg hsign.2]

end Numeral

namespace Token

variable {t : Token}

/-- A numeral with the mark `0x` has hexadecimal digits behind it. -/
theorem IsSpelled.exists_of_hexNumber (ht : t.IsSpelled) (hkind : t.kind = .hexNumber) :
    ∃ digits : Text, t.text = ('0' : CodePoint) :: ('x' : CodePoint) :: digits ∧ digits ≠ [] ∧
      ∀ c ∈ digits, isHexDigit c = true := by
  have hspellings : ∀ s ∈ spellings, s.2 ≠ .hexNumber := by decide
  have h := ht.isLexeme
  rw [hkind] at h
  generalize t.text = text at h
  cases h with
  | fixed mem => exact absurd rfl (hspellings _ mem)
  | hexNumber ne digits => exact ⟨_, rfl, ne, digits⟩

/-- Any other numeral without a point consists of digits. -/
theorem IsSpelled.isDigit_of_int (ht : t.IsSpelled) (hkind : t.kind = .int) :
    t.text ≠ [] ∧ ∀ c ∈ t.text, c.isDigit = true := by
  have hspellings : ∀ s ∈ spellings, s.2 ≠ .int := by decide
  have h := ht.isLexeme
  rw [hkind] at h
  generalize t.text = text at h
  cases h with
  | fixed mem => exact absurd rfl (hspellings _ mem)
  | int ne digits => exact ⟨ne, digits⟩

/-- A hexadecimal numeral is read, however long it is. -/
theorem IsSpelled.read?_hexadecimal (ht : t.IsSpelled) (hkind : t.kind = .hexNumber) :
    Numeral.read? .hexadecimal t.text = some (Numeral.value 16 (t.text.drop 2) : Int) := by
  obtain ⟨digits, htext, hne, hdigits⟩ := ht.exists_of_hexNumber hkind
  have hvalues : ∀ c ∈ digits, ∃ d, c.hexDigit? = some d ∧ d < 16 := fun c hc =>
    have ⟨d, hd⟩ := Option.isSome_iff_exists.mp (hdigits c hc)
    ⟨d, hd, (Numeral.isPlain_of_hexDigit? hd).2⟩
  have hplain : ∀ c ∈ t.text, Numeral.IsPlain c := by
    rw [htext, List.forall_mem_cons, List.forall_mem_cons]
    exact ⟨⟨by decide, by decide⟩, ⟨by decide, by decide⟩, fun c hc =>
      have ⟨_, hd, _⟩ := hvalues c hc
      (Numeral.isPlain_of_hexDigit? hd).1⟩
  have hmark : ('x' : CodePoint) = 'x' ∨ ('x' : CodePoint) = 'X' := .inl rfl
  rw [Numeral.read?_of_plain hplain (by simp [htext]), htext, Numeral.unsigned?,
    if_pos ⟨rfl, hmark⟩, Numeral.afterMark?.eq_2 _ _ hne, Numeral.grouped?_eq hvalues 0 (.inl rfl)]
  rfl

/-- A decimal numeral is read if it is not longer than the limit. -/
theorem IsSpelled.read?_decimal (ht : t.IsSpelled) (hkind : t.kind = .int) :
    Numeral.read? .decimal t.text =
      if t.text.length ≤ Numeral.digitLimit then some (Numeral.value 10 t.text : Int)
      else none := by
  obtain ⟨hne, hdigits⟩ := ht.isDigit_of_int hkind
  have hvalues : ∀ c ∈ t.text, ∃ d, c.hexDigit? = some d ∧ d < 10 := by
    intro c hc
    have hc := hdigits c hc
    refine ⟨c.val - 48, if_pos hc, ?_⟩
    rw [CodePoint.isDigit, Bool.and_eq_true, decide_eq_true_eq, decide_eq_true_eq] at hc
    omega
  have hplain : ∀ c ∈ t.text, Numeral.IsPlain c := by
    intro c hc
    obtain ⟨d, hd, -⟩ := hvalues c hc
    exact (Numeral.isPlain_of_hexDigit? hd).1
  rw [Numeral.read?_of_plain hplain hne, Numeral.unsigned?, Numeral.unsignedDecimal?,
    List.filter_eq_self.mpr hdigits, Numeral.grouped?_eq hvalues 0 (.inr hne)]
  split <;> rfl

end Token

/-! ### Items and their pieces -/

/-- The piece is a decimal numeral with more digits than are read. -/
def Piece.IsOverlong (p : Piece) : Prop :=
  p.kind = .int ∧ p.token.kind = .int ∧ Numeral.digitLimit < p.text.length

namespace Grammar

/-- **The item** that is written so. -/
def Item.made : Item → Except Error Native.Item
  | padding _ amount =>
    match Numeral.read? (if amount.1.kind = .hexNumber then .hexadecimal else .decimal)
        amount.1.text with
    | some size => .ok (.padding size)
    | none => .error (.failure .badValue)
  | field name _ type => .ok (.field name.1.text type.expr)

/-- Only a padding with too many digits is no item. -/
theorem Item.made_eq_error_iff {i : Item} (ht : ∀ t ∈ i.tokens, t.IsSpelled) {e : Error} :
    i.made = .error e ↔ e = .failure .badValue ∧ ∃ p ∈ i.pieces, p.IsOverlong := by
  cases i with
  | field name colon type => simp [made, pieces, Piece.IsOverlong]
  | padding mark amount =>
    have hspelled := ht amount.1 (by simp)
    simp only [pieces, List.mem_cons, List.not_mem_nil, or_false, exists_eq_or_imp,
      exists_eq_left, Piece.IsOverlong, Piece.text, made]
    by_cases hkind : amount.1.kind = .hexNumber
    · rw [if_pos hkind, hspelled.read?_hexadecimal hkind]
      simp [hkind]
    · have hint : amount.1.kind = .int := by
        simpa [hkind] using amount.2
      rw [if_neg hkind, hspelled.read?_decimal hint]
      by_cases hlength : amount.1.text.length ≤ Numeral.digitLimit
      · simp [hlength, Nat.not_lt.mpr hlength]
      · simp [hlength, hint, Nat.lt_of_not_le hlength, eq_comm]

namespace Declaration

/-- The items of a declaration, in order. -/
def items (d : Declaration) : List Item := d.first :: d.more.map Prod.snd

theorem pieces_eq (d : Declaration) :
    d.pieces = ⟨.ident, d.name.1, none⟩ :: d.items.flatMap Item.pieces := by
  simp [pieces, items, List.flatMap_map]

/-- The tokens of the items are tokens of the declaration. -/
theorem mem_tokens (d : Declaration) {i : Item} (hi : i ∈ d.items) {t : Token} (ht : t ∈ i.tokens) :
    t ∈ d.tokens := by
  refine List.mem_cons_of_mem _ (List.mem_cons_of_mem _ (List.mem_append.mpr ?_))
  rcases List.mem_cons.mp hi with rfl | hi
  · exact .inl ht
  · obtain ⟨m, hm, rfl⟩ := List.mem_map.mp hi
    exact .inr (List.mem_append_left _
      (List.mem_flatMap.mpr ⟨m, hm, List.mem_cons_of_mem _ ht⟩))

end Declaration

end Grammar

namespace Native

/-- **An item is made of its own pieces**, and what is behind them makes the rest. -/
theorem itemsOf_pieces_append (block : Text) {i : Grammar.Item} (ht : ∀ t ∈ i.tokens, t.IsSpelled)
    (more : List Piece) : itemsOf block (i.pieces ++ more) = (do
      let item ← i.made
      let items ← itemsOf block more
      pure (item :: items)) := by
  cases i with
  | field name colon type => rfl
  | padding mark amount =>
    have hmark : mark.1.text = paddingMark :=
      (ht mark.1 (by simp)).isMark_iff.mpr mark.kind_eq
    simp only [Grammar.Item.pieces, List.cons_append, List.nil_append, Grammar.Item.made]
    rw [itemsOf, if_pos ⟨rfl, hmark⟩]
    simp only [Piece.literal, Piece.text, if_true]
    cases Numeral.read? (if amount.1.kind = .hexNumber then .hexadecimal else .decimal)
      amount.1.text <;> rfl

/-- What has been parsed falls into items, in the order in which they are written. -/
theorem itemsOf_flatMap (block : Text) {is : List Grammar.Item}
    (ht : ∀ i ∈ is, ∀ t ∈ i.tokens, t.IsSpelled) :
    itemsOf block (is.flatMap Grammar.Item.pieces) = is.mapM Grammar.Item.made := by
  induction is with
  | nil => rfl
  | cons i is ih =>
    rw [List.forall_mem_cons] at ht
    rw [List.flatMap_cons, itemsOf_pieces_append block ht.1, ih ht.2, List.mapM_cons]

/-- **The items of a declaration that has been parsed.** -/
theorem items_pieces {d : Grammar.Declaration} (ht : ∀ t ∈ d.tokens, t.IsSpelled) :
    items d.pieces = (do
      let items ← d.items.mapM Grammar.Item.made
      pure (d.name.1.text, items)) := by
  have hitems : ∀ i ∈ d.items, ∀ t ∈ i.tokens, t.IsSpelled := fun i hi t hmem =>
    ht t (d.mem_tokens hi hmem)
  rw [d.pieces_eq, items, itemsOf_flatMap _ hitems, Grammar.Declaration.items, List.mapM_cons]
  cases d.first.made with
  | error e => rfl
  | ok item => cases (d.more.map Prod.snd).mapM Grammar.Item.made <;> rfl

theorem mapM_made_eq_error_iff {is : List Grammar.Item}
    (ht : ∀ i ∈ is, ∀ t ∈ i.tokens, t.IsSpelled) {e : Error} :
    is.mapM Grammar.Item.made = .error e ↔
      e = .failure .badValue ∧ ∃ p ∈ is.flatMap Grammar.Item.pieces, p.IsOverlong := by
  induction is with
  | nil => simp [pure, Except.pure]
  | cons i is ih =>
    rw [List.forall_mem_cons] at ht
    simp only [List.mapM_cons, List.flatMap_cons, List.mem_append, or_and_right, exists_or]
    cases hmade : i.made with
    | error e' =>
      obtain ⟨rfl, hlong⟩ := (Grammar.Item.made_eq_error_iff ht.1).mp hmade
      constructor
      · rintro ⟨⟩
        exact ⟨rfl, .inl hlong⟩
      · rintro ⟨rfl, -⟩
        rfl
    | ok item =>
      have hshort : ¬∃ p ∈ i.pieces, p.IsOverlong := fun hlong => by
        cases hmade.symm.trans ((Grammar.Item.made_eq_error_iff ht.1).mpr ⟨rfl, hlong⟩)
      rw [or_iff_right hshort, ← ih ht.2]
      exact bind_pure_eq_error_iff

/-- **Only overlong paddings are refused** behind the parser, and not as a parse error. -/
theorem items_eq_error_iff {d : Grammar.Declaration} (ht : ∀ t ∈ d.tokens, t.IsSpelled)
    {e : Error} : items d.pieces = .error e ↔
      e = .failure .badValue ∧ ∃ p ∈ d.pieces, p.IsOverlong := by
  have hitems : ∀ i ∈ d.items, ∀ t ∈ i.tokens, t.IsSpelled := fun i hi t hmem =>
    ht t (d.mem_tokens hi hmem)
  have hname : ¬(⟨.ident, d.name.1, none⟩ : Piece).IsOverlong := by simp [Piece.IsOverlong]
  rw [items_pieces ht, d.pieces_eq]
  simp only [List.mem_cons, or_and_right, exists_or, exists_eq_left]
  rw [or_iff_right hname, ← mapM_made_eq_error_iff hitems, bind_pure_eq_error_iff]

end Native

/-! ### The declarations of a script -/

/-- **Every declaration in a script that parses** is one of the grammar. -/
theorem Engine.exists_declaration_of_parse [Host] {options : Options} {t : Text}
    {statements : List Statement} (h : (standard options).parse t = .ok statements)
    {keyword : Text} {pieces : List Piece} (hmem : .custom keyword pieces ∈ statements) :
    keyword = Native.keyword ∧
      ∃ d : Grammar.Declaration, pieces = d.pieces ∧ ∀ k ∈ d.tokens, k.IsSpelled := by
  rw [parse, Statement.parse_eq] at h
  obtain ⟨tokens, hscan, h⟩ := exists_of_bind_eq_ok h
  obtain ⟨first, rest, hrun, hparse⟩ := Statement.exists_of_mem_parseRuns h _ hmem
  have hspelled : ∀ k ∈ rest, k.IsSpelled := fun k hk =>
    Token.isSpelled_of_scanFrom hscan k
      (Token.mem_of_mem_runs (List.mem_filter.mp hrun).1 k (List.mem_cons_of_mem _ hk))
  cases hform : Statement.form? (standard options).forms first with
  | none =>
    obtain ⟨d, -, hd⟩ := (Statement.parseOne_eq_ok_iff hform).mp hparse
    cases d <;> cases hd
  | some form =>
    obtain ⟨-, rfl⟩ := form?_standard hform
    rw [Statement.parseOne, hform] at hparse
    obtain ⟨ps, hps, hst⟩ := exists_of_bind_eq_ok hparse
    obtain ⟨d, rfl, rfl⟩ := (Native.pieces_eq_ok_iff hspelled).mp hps
    cases hst
    exact ⟨rfl, d, rfl, hspelled⟩

end TypedMemory
