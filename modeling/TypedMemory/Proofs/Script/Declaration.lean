import TypedMemory.Proofs.Script.Statements

/-!
# The grammar of declarations

A declaration is parsed without a state: what it expects next is worked out each time from the
symbols so far, and the end of a layout is found by counting brackets before the layout is
parsed. Here is what is accepted in this way, as a grammar
(`TypedMemory.Grammar.Declaration`):

    declaration  NAME { item (, item)* }
    item         ^ (INT | HEX_NUMBER)  |  NAME : expression

`TypedMemory.Native.pieces_eq_ok_iff` says that it is just that, and which pieces there are;
`TypedMemory.Native.parse_eq_declaration` says it of the statements of a script.

There is no invariant on the symbols but one, `TypedMemory.Native.InItem`: which of them belong
to the current item. A symbol of the item adds to it, a comma begins the next one, and what is
expected depends on nothing else (`TypedMemory.Native.InItem.next_eq`). Where that is a whole
item, it is complete (`TypedMemory.Native.InItem.isComplete`). Two facts from elsewhere do the
rest: symbols are known by their texts (`TypedMemory.Token.IsSpelled.text_eq_iff`), and what the
grammar derives is level, so that bracket counting stops right behind the layout
(`TypedMemory.Token.IsLevel.expressionSpan_eq`).
-/

namespace TypedMemory

/-- The mark of a padding is known by its text. -/
theorem Token.IsSpelled.isMark_iff {t : Token} (ht : t.IsSpelled) :
    t.text = Native.paddingMark ↔ t.kind = .caret :=
  ht.text_eq_iff (by decide)

/-! ### The grammar of declarations -/

namespace Grammar

theorem Terminal.kind_notMem {kinds others : List TokenKind} (t : Terminal kinds)
    (h : ∀ kind ∈ kinds, kind ∉ others) : t.1.kind ∉ others := h t.1.kind t.2

/-- An item of a declaration. -/
inductive Item
  | padding (mark : Terminal [.caret]) (amount : Terminal [.int, .hexNumber])
  | field (name : Terminal [.name]) (colon : Terminal [.colon]) (type : Expression)

namespace Item

/-- The tokens of an item, in order. -/
@[simp] def tokens : Item → List Token
  | padding mark amount => [mark.1, amount.1]
  | field name colon type => name.1 :: colon.1 :: type.tokens

/-- **The pieces of an item**: the mark and the number of a padding; the name and the layout of
a field. -/
def pieces : Item → List Piece
  | padding mark amount => [⟨.symbol, mark.1, none⟩, ⟨.int, amount.1, none⟩]
  | field name _ type =>
    [⟨.ident, name.1, none⟩, ⟨.expr, type.tokens.head type.tokens_ne_nil, some type.expr⟩]

/-- The symbols that a form sees of an item. -/
def symbols : Item → List Text
  | padding mark amount => [mark.1.text, amount.1.text]
  | field name colon _ => [name.1.text, colon.1.text, Expectation.expr.text]

end Item

/-- A declaration, behind its keyword. -/
structure Declaration where
  name : Terminal [.name]
  opening : Terminal [.leftBrace]
  first : Item
  more : List (Terminal [.comma] × Item)
  closing : Terminal [.rightBrace]

namespace Declaration

/-- The tokens of a declaration, in order. -/
def tokens (d : Declaration) : List Token :=
  d.name.1 :: d.opening.1 ::
    (d.first.tokens ++ (d.more.flatMap (fun m => m.1.1 :: m.2.tokens) ++ [d.closing.1]))

/-- **The pieces of a declaration**: its name, and then item by item. -/
def pieces (d : Declaration) : List Piece :=
  ⟨.ident, d.name.1, none⟩ :: (d.first.pieces ++ d.more.flatMap fun m => m.2.pieces)

end Declaration

end Grammar

namespace Native

/-! ### What a declaration expects -/

/-- In a declaration, behind these symbols, the symbols of the current item are those. -/
structure InItem (symbols item : List Text) : Prop where
  length_ge : 3 ≤ symbols.length
  isOpen : symbols.getLast? ≠ some ("\x7d" : Text)
  currentItem_eq : currentItem symbols = item

/-- In a declaration, behind these symbols, the current item is complete: the closing brace is
expected if it stands there, and a comma otherwise. -/
structure IsComplete (symbols : List Text) : Prop where
  length_ge : 3 ≤ symbols.length
  next_eq (ahead : Text) : next symbols ahead =
    some (.literal (if ahead = "\x7d" then "\x7d" else ","))

namespace InItem

variable {symbols item : List Text}

/-- Within the items, what is expected goes by the current one. -/
theorem next_eq (ahead : Text) : InItem symbols item →
    next symbols ahead = match item with
      | [] => some (if ahead = paddingMark then .symbol else .ident)
      | [head] => some (if head = paddingMark then .int else .literal ":")
      | [head, _] =>
        if head ≠ paddingMark then some .expr
        else some (.literal (if ahead = "\x7d" then "\x7d" else ","))
      | _ => some (.literal (if ahead = "\x7d" then "\x7d" else ",")) := by
  intro h
  have hlength := h.length_ge
  have hname : symbols.length ≠ 1 := by omega
  have hopening : symbols.length ≠ 2 := by omega
  obtain rfl := h.currentItem_eq
  exact (if_neg hname).trans ((if_neg hopening).trans (if_neg h.isOpen))

/-- A symbol of the item is added to it. -/
theorem push (h : InItem symbols item) {s : Text} (hopen : s ≠ "\x7b") (hclose : s ≠ "\x7d")
    (hcomma : s ≠ ",") : InItem (symbols ++ [s]) (item ++ [s]) where
  length_ge := by
    have := h.length_ge
    rw [List.length_append]
    omega
  isOpen := by simpa using hclose
  currentItem_eq := by
    rw [← h.currentItem_eq]
    simp [currentItem, hopen, hcomma]

/-- Behind a comma the next item begins. -/
theorem comma (h : InItem symbols item) : InItem (symbols ++ [Text.of ","]) [] where
  length_ge := by
    have := h.length_ge
    rw [List.length_append]
    omega
  isOpen := by simpa using (by decide : Text.of "," ≠ Text.of "\x7d")
  currentItem_eq := by simp [currentItem]

/-- A token is added to the item, unless it ends it. -/
theorem pushToken (h : InItem symbols item) {t : Token} (ht : t.IsSpelled)
    (hkind : t.kind ∉ [.leftBrace, .rightBrace, .comma]) :
    InItem (symbols ++ [t.text]) (item ++ [t.text]) := by
  simp only [List.mem_cons, List.not_mem_nil, or_false, not_or] at hkind
  exact h.push (mt (ht.text_eq_iff (by decide)).mp hkind.1)
    (mt (ht.text_eq_iff (by decide)).mp hkind.2.1) (mt (ht.text_eq_iff (by decide)).mp hkind.2.2)

/-- Behind the mark of a padding its number is expected. -/
theorem next_mark (h : InItem symbols []) {mark : Token} (ht : mark.IsSpelled)
    (hkind : mark.kind = .caret) (ahead : Text) :
    next (symbols ++ [mark.text]) ahead = some .int := by
  have hitem : InItem (symbols ++ [mark.text]) [mark.text] := h.pushToken ht (by simp [hkind])
  exact (hitem.next_eq ahead).trans (congrArg some (if_pos (ht.isMark_iff.mpr hkind)))

/-- Behind the name of a field a colon is expected. -/
theorem next_name (h : InItem symbols []) {name : Token} (ht : name.IsSpelled)
    (hkind : name.kind = .name) (ahead : Text) :
    next (symbols ++ [name.text]) ahead = some (.literal ":") := by
  have hitem : InItem (symbols ++ [name.text]) [name.text] := h.pushToken ht (by simp [hkind])
  have hfield : name.text ≠ paddingMark := mt ht.isMark_iff.mp (by simp [hkind])
  exact (hitem.next_eq ahead).trans (congrArg some (if_neg hfield))

/-- Behind the colon of a field its layout is expected. -/
theorem next_colon (h : InItem symbols []) {name colon : Token} (hname : name.IsSpelled)
    (hnamed : name.kind = .name) (hcolon : colon.IsSpelled) (hkind : colon.kind = .colon)
    (ahead : Text) : next (symbols ++ [name.text] ++ [colon.text]) ahead = some .expr := by
  have hitem : InItem (symbols ++ [name.text] ++ [colon.text]) [name.text, colon.text] :=
    (h.pushToken hname (by simp [hnamed])).pushToken hcolon (by simp [hkind])
  have hfield : name.text ≠ paddingMark := mt hname.isMark_iff.mp (by simp [hnamed])
  exact (hitem.next_eq ahead).trans (if_pos hfield)

/-- Behind a whole item its symbols are those of the current item. -/
theorem append_item (h : InItem symbols []) {i : Grammar.Item}
    (ht : ∀ t ∈ i.tokens, t.IsSpelled) : InItem (symbols ++ i.symbols) i.symbols := by
  cases i with
  | padding mark amount =>
    simp only [Grammar.Item.tokens, List.forall_mem_cons] at ht
    have hitem := (h.pushToken ht.1 (mark.kind_notMem (by decide))).pushToken ht.2.1
      (amount.kind_notMem (by decide))
    simpa [Grammar.Item.symbols] using hitem
  | field name colon type =>
    simp only [Grammar.Item.tokens, List.forall_mem_cons] at ht
    have hitem := ((h.pushToken ht.1 (name.kind_notMem (by decide))).pushToken ht.2.1
      (colon.kind_notMem (by decide))).push (s := Expectation.expr.text) (by decide) (by decide)
      (by decide)
    simpa [Grammar.Item.symbols] using hitem

/-- Behind a whole item the item is complete. -/
theorem isComplete (h : InItem symbols []) {i : Grammar.Item} (ht : ∀ t ∈ i.tokens, t.IsSpelled) :
    IsComplete (symbols ++ i.symbols) where
  length_ge := (h.append_item ht).length_ge
  next_eq ahead := by
    have hitem := h.append_item ht
    cases i with
    | padding mark amount =>
      have hmark : mark.1.text = paddingMark :=
        ((ht mark.1 (by simp)).text_eq_iff (by decide)).mpr mark.kind_eq
      exact (hitem.next_eq ahead).trans (if_neg (not_not_intro hmark))
    | field name colon type => exact hitem.next_eq ahead

end InItem

/-- Behind the closing brace nothing is expected. -/
theorem next_closed {symbols : List Text} (hlength : 3 ≤ symbols.length) (ahead : Text) :
    next (symbols ++ [Text.of "\x7d"]) ahead = none := by
  rw [next, List.length_append, if_neg (by omega), if_neg (by omega), if_pos (by simp)]

section Pieces

variable {last : Position} {symbols : List Text} {tokens : List Token} {ps : List Piece}

/-- The closing brace is the last token. -/
theorem pieces_closing_iff (h : IsComplete symbols) {t : Token} {rest : List Token}
    (ht : t.IsSpelled) (hkind : t.kind = .rightBrace) :
    form.pieces .tokens last symbols (t :: rest) = .ok ps ↔ rest = [] ∧ ps = [] := by
  have htext : t.text = "\x7d" := (ht.text_eq_iff (by decide)).mpr hkind
  have hclose : form.next symbols (lookAhead (t :: rest)) = some (.literal "\x7d") :=
    (h.next_eq t.text).trans (by rw [if_pos htext])
  rw [StatementForm.pieces_eq_ok_iff_of_single hclose (by simp)]
  constructor
  · rintro ⟨t', rest', more, htokens, -, hmore, rfl⟩
    obtain ⟨rfl, rfl⟩ := List.cons.inj htokens
    rw [htext, StatementForm.pieces_eq_ok_iff_of_none (next_closed h.length_ge _)] at hmore
    obtain ⟨rfl, rfl⟩ := hmore
    exact ⟨rfl, rfl⟩
  · rintro ⟨rfl, rfl⟩
    refine ⟨t, [], [], rfl, by simpa [Expectation.accepts] using htext, ?_, rfl⟩
    rw [htext]
    exact (StatementForm.pieces_eq_ok_iff_of_none (next_closed h.length_ge _)).mpr ⟨rfl, rfl⟩

/-- Any other token has to be a comma. -/
theorem pieces_comma_iff (h : IsComplete symbols) {t : Token} {rest : List Token}
    (ht : t.IsSpelled) (hkind : t.kind ≠ .rightBrace) :
    form.pieces .tokens last symbols (t :: rest) = .ok ps ↔
      t.kind = .comma ∧ form.pieces .tokens last (symbols ++ [Text.of ","]) rest = .ok ps := by
  have hbrace : t.text ≠ "\x7d" := mt (ht.text_eq_iff (by decide)).mp hkind
  have hcomma : t.text = "," ↔ t.kind = .comma := ht.text_eq_iff (by decide)
  have hgoes : form.next symbols (lookAhead (t :: rest)) = some (.literal ",") :=
    (h.next_eq t.text).trans (by rw [if_neg hbrace])
  rw [StatementForm.pieces_eq_ok_iff_of_single hgoes (by simp)]
  constructor
  · rintro ⟨t', rest', more, htokens, haccepts, hmore, rfl⟩
    obtain ⟨rfl, rfl⟩ := List.cons.inj htokens
    have htext : t.text = "," := by simpa [Expectation.accepts] using haccepts
    rw [htext] at hmore
    exact ⟨hcomma.mp htext, hmore⟩
  · rintro ⟨hkind, hmore⟩
    have htext : t.text = "," := hcomma.mpr hkind
    refine ⟨t, rest, ps, rfl, by simpa [Expectation.accepts] using htext, ?_, rfl⟩
    rwa [htext]

/-- Behind an item stands the closing brace, or a comma and what else there is. -/
theorem pieces_separator_iff (h : IsComplete symbols) (ht : ∀ t ∈ tokens, t.IsSpelled) :
    form.pieces .tokens last symbols tokens = .ok ps ↔
      (∃ closing : Grammar.Terminal [.rightBrace], tokens = [closing.1] ∧ ps = []) ∨
        ∃ (comma : Grammar.Terminal [.comma]) (rest : List Token), tokens = comma.1 :: rest ∧
          form.pieces .tokens last (symbols ++ [Text.of ","]) rest = .ok ps := by
  cases tokens with
  | nil =>
    have hgoes : form.next symbols (lookAhead []) = some (.literal ",") := h.next_eq _
    rw [StatementForm.pieces_eq_ok_iff_of_single hgoes (by simp)]
    simp
  | cons t rest =>
    have hspelled := ht t List.mem_cons_self
    by_cases hkind : t.kind = .rightBrace
    · rw [pieces_closing_iff h hspelled hkind]
      constructor
      · rintro ⟨rfl, rfl⟩
        exact .inl ⟨⟨t, by simp [hkind]⟩, rfl, rfl⟩
      · rintro (⟨closing, htokens, rfl⟩ | ⟨comma, rest', htokens, -⟩)
        · exact ⟨(List.cons.inj htokens).2, rfl⟩
        · obtain ⟨rfl, rfl⟩ := List.cons.inj htokens
          cases comma.kind_eq.symm.trans hkind
    · rw [pieces_comma_iff h hspelled hkind]
      constructor
      · rintro ⟨hcomma, hmore⟩
        exact .inr ⟨⟨t, by simp [hcomma]⟩, rest, rfl, hmore⟩
      · rintro (⟨closing, htokens, rfl⟩ | ⟨comma, rest', htokens, hmore⟩)
        · obtain ⟨rfl, rfl⟩ := List.cons.inj htokens
          exact absurd closing.kind_eq hkind
        · obtain ⟨rfl, rfl⟩ := List.cons.inj htokens
          exact ⟨comma.kind_eq, hmore⟩

/-- What may stand behind an item ends an expression. -/
theorem endsExpression_of_pieces (h : IsComplete symbols) (ht : ∀ t ∈ tokens, t.IsSpelled)
    (hpieces : form.pieces .tokens last symbols tokens = .ok ps) :
    ∀ t ∈ tokens.head?, t.kind.endsExpression = true := by
  rcases (pieces_separator_iff h ht).mp hpieces with
    ⟨closing, rfl, -⟩ | ⟨comma, rest, rfl, -⟩
  · simp [closing.kind_eq, TokenKind.endsExpression, TokenKind.isCloser]
  · simp [comma.kind_eq, TokenKind.endsExpression]

/-- In front of the mark of a padding, a padding is expected. -/
theorem pieces_padding_iff (h : InItem symbols []) (ht : ∀ t ∈ tokens, t.IsSpelled)
    (hahead : lookAhead tokens = paddingMark) :
    form.pieces .tokens last symbols tokens = .ok ps ↔ ∃ mark amount rest more,
      tokens = (Grammar.Item.padding mark amount).tokens ++ rest ∧
        form.pieces .tokens last (symbols ++ (Grammar.Item.padding mark amount).symbols) rest =
          .ok more ∧
        ps = (Grammar.Item.padding mark amount).pieces ++ more := by
  have hmark : form.next symbols (lookAhead tokens) = some .symbol :=
    (h.next_eq _).trans (by rw [if_pos hahead])
  rw [StatementForm.pieces_eq_ok_iff_of_single hmark (by simp)]
  constructor
  · rintro ⟨mark, rest, more, rfl, -, hmore, rfl⟩
    have hspelled := ht mark List.mem_cons_self
    have hkind : mark.kind = .caret := hspelled.isMark_iff.mp hahead
    rw [StatementForm.pieces_eq_ok_iff_of_single (h.next_mark hspelled hkind _) (by simp)] at hmore
    obtain ⟨amount, rest, more, rfl, haccepts, hmore, rfl⟩ := hmore
    refine ⟨⟨mark, by simp [hkind]⟩, ⟨amount, by simpa [Expectation.accepts] using haccepts⟩,
      rest, more, rfl, ?_, rfl⟩
    simpa [Grammar.Item.symbols] using hmore
  · rintro ⟨mark, amount, rest, more, rfl, hmore, rfl⟩
    have hspelled := ht mark.1 List.mem_cons_self
    have hkind := Grammar.Terminal.kind_eq mark
    refine ⟨mark.1, amount.1 :: rest, ⟨.int, amount.1, none⟩ :: more, rfl,
      by simp [Expectation.accepts, hkind, TokenKind.isValue], ?_, rfl⟩
    rw [StatementForm.pieces_eq_ok_iff_of_single (h.next_mark hspelled hkind _) (by simp)]
    refine ⟨amount.1, rest, more, rfl, by simpa [Expectation.accepts] using amount.2, ?_, rfl⟩
    simpa [Grammar.Item.symbols] using hmore

/-- Elsewhere a field is expected. -/
theorem pieces_field_iff (h : InItem symbols []) (ht : ∀ t ∈ tokens, t.IsSpelled)
    (hahead : lookAhead tokens ≠ paddingMark) :
    form.pieces .tokens last symbols tokens = .ok ps ↔ ∃ name colon type rest more,
      tokens = (Grammar.Item.field name colon type).tokens ++ rest ∧
        form.pieces .tokens last (symbols ++ (Grammar.Item.field name colon type).symbols) rest =
          .ok more ∧
        ps = (Grammar.Item.field name colon type).pieces ++ more := by
  have hname : form.next symbols (lookAhead tokens) = some .ident :=
    (h.next_eq _).trans (by rw [if_neg hahead])
  rw [StatementForm.pieces_eq_ok_iff_of_single hname (by simp)]
  constructor
  · rintro ⟨name, rest, more, rfl, haccepts, hmore, rfl⟩
    have hspelled := ht name List.mem_cons_self
    have hkind : name.kind = .name := by simpa [Expectation.accepts] using haccepts
    rw [StatementForm.pieces_eq_ok_iff_of_single (h.next_name hspelled hkind _) (by simp)] at hmore
    obtain ⟨colon, rest, more, rfl, haccepts, hmore, rfl⟩ := hmore
    have hspelled' := ht colon (by simp)
    have htext : colon.text = ":" := by simpa [Expectation.accepts] using haccepts
    have hkind' : colon.kind = .colon := (hspelled'.text_eq_iff (by decide)).mp htext
    rw [StatementForm.pieces_eq_ok_iff_of_expr
      (h.next_colon hspelled hkind hspelled' hkind' _)] at hmore
    obtain ⟨type, first, behind, more, hfirst, hspan, hmore, rfl⟩ := hmore
    have happend := Token.expressionSpan_append 0 rest
    rw [hspan] at happend
    refine ⟨⟨name, by simp [hkind]⟩, ⟨colon, by simp [hkind']⟩, type, behind, more, ?_, ?_, ?_⟩
    · rw [← happend]
      rfl
    · simpa [Grammar.Item.symbols] using hmore
    · have hhead := (List.head_eq_iff_head?_eq_some type.tokens_ne_nil).mpr hfirst
      simp [Grammar.Item.pieces, hhead, Expectation.isKept]
  · rintro ⟨name, colon, type, rest, more, rfl, hmore, rfl⟩
    have hspelled := ht name.1 List.mem_cons_self
    have hkind := Grammar.Terminal.kind_eq name
    have hspelled' := ht colon.1 (by simp)
    have hkind' := Grammar.Terminal.kind_eq colon
    refine ⟨name.1, _, _, rfl, by simp [Expectation.accepts, hkind], ?_, rfl⟩
    rw [StatementForm.pieces_eq_ok_iff_of_single (h.next_name hspelled hkind _) (by simp)]
    refine ⟨colon.1, _, _, rfl, ?_, ?_, rfl⟩
    · have htext : colon.1.text = ":" := (hspelled'.text_eq_iff (by decide)).mpr hkind'
      simpa [Expectation.accepts] using htext
    rw [StatementForm.pieces_eq_ok_iff_of_expr
      (h.next_colon hspelled hkind hspelled' hkind' _)]
    obtain ⟨hitem, hrest⟩ := List.forall_mem_append.mp ht
    have hbehind := endsExpression_of_pieces (h.isComplete hitem) hrest hmore
    refine ⟨type, _, rest, more, List.head?_eq_some_head type.tokens_ne_nil,
      (type.isLevel 0).expressionSpan_eq hbehind, ?_, rfl⟩
    simpa [Grammar.Item.symbols] using hmore

/-- Where an item can stand there is one. -/
theorem pieces_item_iff (h : InItem symbols []) (ht : ∀ t ∈ tokens, t.IsSpelled) :
    form.pieces .tokens last symbols tokens = .ok ps ↔ ∃ (i : Grammar.Item) (rest : List Token)
      (more : List Piece), tokens = i.tokens ++ rest ∧
        form.pieces .tokens last (symbols ++ i.symbols) rest = .ok more ∧
        ps = i.pieces ++ more := by
  by_cases hahead : lookAhead tokens = paddingMark
  · rw [pieces_padding_iff h ht hahead]
    constructor
    · rintro ⟨mark, amount, rest, more, hitem⟩
      exact ⟨.padding mark amount, rest, more, hitem⟩
    · rintro ⟨i, rest, more, htokens, hmore⟩
      cases i with
      | padding mark amount => exact ⟨mark, amount, rest, more, htokens, hmore⟩
      | field name colon type =>
        subst htokens
        have hkind := (ht name.1 List.mem_cons_self).isMark_iff.mp hahead
        cases name.kind_eq.symm.trans hkind
  · rw [pieces_field_iff h ht hahead]
    constructor
    · rintro ⟨name, colon, type, rest, more, hitem⟩
      exact ⟨.field name colon type, rest, more, hitem⟩
    · rintro ⟨i, rest, more, htokens, hmore⟩
      cases i with
      | padding mark amount =>
        subst htokens
        exact absurd ((ht mark.1 List.mem_cons_self).isMark_iff.mpr mark.kind_eq) hahead
      | field name colon type => exact ⟨name, colon, type, rest, more, htokens, hmore⟩

/-- **Behind the opening brace** there are items with commas between them, and the closing
brace. -/
theorem pieces_items_iff (h : InItem symbols []) (ht : ∀ t ∈ tokens, t.IsSpelled) :
    form.pieces .tokens last symbols tokens = .ok ps ↔ ∃ (first : Grammar.Item)
      (more : List (Grammar.Terminal [.comma] × Grammar.Item))
      (closing : Grammar.Terminal [.rightBrace]),
        tokens = first.tokens ++ (more.flatMap (fun m => m.1.1 :: m.2.tokens) ++ [closing.1]) ∧
          ps = first.pieces ++ more.flatMap fun m => m.2.pieces := by
  induction hn : tokens.length using Nat.strongRecOn generalizing symbols tokens ps with
  | _ n ih =>
  subst hn
  rw [pieces_item_iff h ht]
  constructor
  · rintro ⟨i, rest, ps, rfl, hrest, rfl⟩
    obtain ⟨hitem, hspelled⟩ := List.forall_mem_append.mp ht
    rw [pieces_separator_iff (h.isComplete hitem) hspelled] at hrest
    rcases hrest with ⟨closing, rfl, rfl⟩ | ⟨comma, rest, rfl, hmore⟩
    · exact ⟨i, [], closing, rfl, rfl⟩
    · have hshorter : rest.length < (i.tokens ++ comma.1 :: rest).length := by
        rw [List.length_append, List.length_cons]
        omega
      rw [ih _ hshorter (h.append_item hitem).comma (List.forall_mem_cons.mp hspelled).2 rfl]
        at hmore
      obtain ⟨first, more, closing, rfl, rfl⟩ := hmore
      refine ⟨i, (comma, first) :: more, closing, ?_, rfl⟩
      rw [List.flatMap_cons, List.append_assoc]
      rfl
  · rintro ⟨first, more, closing, rfl, rfl⟩
    obtain ⟨hitem, hspelled⟩ := List.forall_mem_append.mp ht
    refine ⟨first, _, _, rfl, ?_, rfl⟩
    rw [pieces_separator_iff (h.isComplete hitem) hspelled]
    cases more with
    | nil => exact .inl ⟨closing, rfl, rfl⟩
    | cons m more =>
      rw [List.flatMap_cons, List.append_assoc] at hspelled ⊢
      refine .inr ⟨m.1, _, rfl, ?_⟩
      have hshorter : (m.2.tokens ++ (more.flatMap (fun m => m.1.1 :: m.2.tokens) ++
          [closing.1])).length < (first.tokens ++ ((m :: more).flatMap
            (fun m => m.1.1 :: m.2.tokens) ++ [closing.1])).length := by
        simp only [List.flatMap_cons, List.length_append, List.length_cons]
        omega
      rw [ih _ hshorter (h.append_item hitem).comma (List.forall_mem_cons.mp hspelled).2 rfl]
      exact ⟨m.2, more, closing, rfl, rfl⟩

/-- **The form of declarations is their grammar.** -/
theorem pieces_eq_ok_iff (ht : ∀ t ∈ tokens, t.IsSpelled) :
    form.pieces .tokens last [keyword] tokens = .ok ps ↔
      ∃ d : Grammar.Declaration, d.tokens = tokens ∧ d.pieces = ps := by
  have hname : form.next [keyword] (lookAhead tokens) = some .ident := rfl
  have hopening : ∀ name rest, form.next ([keyword] ++ [name]) (lookAhead rest) =
      some (.literal "\x7b") := fun _ _ => rfl
  have hbrace : ∀ t : Token, t.IsSpelled → (t.text = "\x7b" ↔ t.kind = .leftBrace) :=
    fun t hspelled => hspelled.text_eq_iff (by decide)
  have hitems : ∀ name, InItem ([keyword] ++ [name] ++ [Text.of "\x7b"]) [] := fun name =>
    ⟨Nat.le_refl 3, by simp; decide, by simp [currentItem]⟩
  rw [StatementForm.pieces_eq_ok_iff_of_single hname (by simp)]
  constructor
  · rintro ⟨name, rest, more, rfl, hkind, hmore, rfl⟩
    rw [StatementForm.pieces_eq_ok_iff_of_single (hopening _ _) (by simp)] at hmore
    obtain ⟨opening, rest, more, rfl, haccepts, hmore, rfl⟩ := hmore
    have htext : opening.text = "\x7b" := by simpa [Expectation.accepts] using haccepts
    simp only [List.forall_mem_cons] at ht
    rw [htext, pieces_items_iff (hitems _) ht.2.2] at hmore
    obtain ⟨first, more, closing, rfl, rfl⟩ := hmore
    exact ⟨⟨⟨name, by simpa [Expectation.accepts] using hkind⟩,
      ⟨opening, by simpa using (hbrace _ ht.2.1).mp htext⟩, first, more, closing⟩, rfl, rfl⟩
  · rintro ⟨d, rfl, rfl⟩
    simp only [Grammar.Declaration.tokens, List.forall_mem_cons] at ht
    have hkind := d.name.kind_eq
    have htext := (hbrace _ ht.2.1).mpr d.opening.kind_eq
    refine ⟨d.name.1, _, _, rfl, by simp [Expectation.accepts, hkind], ?_, rfl⟩
    rw [StatementForm.pieces_eq_ok_iff_of_single (hopening _ _) (by simp)]
    refine ⟨d.opening.1, _, _, rfl, by simpa [Expectation.accepts] using htext, ?_, rfl⟩
    rw [htext, pieces_items_iff (hitems _) ht.2.2]
    exact ⟨d.first, d.more, d.closing, rfl, rfl⟩

end Pieces

/-- **A statement that begins with the keyword of declarations** is accepted if the grammar has
it for a declaration, and then it has the pieces of that; else it is a parse error, and has a
place. -/
theorem parse_eq_declaration {forms : List StatementForm} {t : Text} {tokens : List Token}
    {first : Token} {rest : List Token} (hscan : Token.scan t = .ok tokens)
    (hrun : first :: rest ∈ Token.statements tokens)
    (hform : Statement.form? forms first = some form) :
    (∀ st, Statement.parseOne (.slices t) forms first rest = .ok st ↔
      ∃ d : Grammar.Declaration, d.tokens = rest ∧ st = .custom keyword d.pieces) ∧
    ∀ e, Statement.parseOne (.slices t) forms first rest = .error e →
      ∃ cause place, e = .parse cause (some place) := by
  have hspelled : ∀ t ∈ rest, t.IsSpelled := fun t ht =>
    Token.isSpelled_of_scanFrom hscan t
      (Token.mem_of_mem_runs (List.mem_filter.mp hrun).1 t (List.mem_cons_of_mem _ ht))
  rw [Statement.parseOne_slices forms hscan hrun, Statement.parseOne, hform]
  refine ⟨fun st => ⟨fun h => ?_, ?_⟩, fun e h => ?_⟩
  · obtain ⟨ps, hps, hst⟩ := exists_of_bind_eq_ok h
    obtain ⟨d, hd, rfl⟩ := (pieces_eq_ok_iff hspelled).mp hps
    exact ⟨d, hd, (Except.ok.inj hst).symm⟩
  · rintro ⟨d, hd, rfl⟩
    have hps : form.pieces .tokens (Statement.lastPosition first rest) [keyword] rest =
        .ok d.pieces := (pieces_eq_ok_iff hspelled).mpr ⟨d, hd, rfl⟩
    dsimp only
    rw [show form.keyword = keyword from rfl, hps]
    rfl
  · rcases or_of_bind_eq_error h with h | ⟨ps, -, h⟩
    · exact StatementForm.pieces_fails h
    · cases h

/-- A declaration with a padding and a field. -/
theorem parse_eq_declaration_padded :
    let token (kind : TokenKind) (text : Text) (offset : Nat) : Token :=
      ⟨kind, text, ⟨1, offset + 1⟩, offset⟩
    (Engine.standard {}).parse "native P \x7b ^ 2, a: B \x7d" = .ok [.custom keyword [
      ⟨.ident, token .name "P" 7, none⟩, ⟨.symbol, token .caret "^" 11, none⟩,
      ⟨.int, token .int "2" 13, none⟩, ⟨.ident, token .name "a" 16, none⟩,
      ⟨.expr, token .name "B" 19, some (.var "B")⟩]] := by
  intro token
  let declaration : Grammar.Declaration := {
    name := ⟨token .name "P" 7, by decide⟩
    opening := ⟨token .leftBrace "\x7b" 9, by decide⟩
    first := .padding ⟨token .caret "^" 11, by decide⟩ ⟨token .int "2" 13, by decide⟩
    more := [(⟨token .comma "," 14, by decide⟩,
      .field ⟨token .name "a" 16, by decide⟩ ⟨token .colon ":" 17, by decide⟩
        (.sum (.single (.chain (.atom (.name ⟨token .name "B" 19, by decide⟩))))))]
    closing := ⟨token .rightBrace "\x7d" 21, by decide⟩ }
  have hscan : Token.scan "native P \x7b ^ 2, a: B \x7d" =
      .ok (token .name "native" 0 :: declaration.tokens) := eq_ok_of_toOption (by decide +kernel)
  have hruns : Token.statements (token .name "native" 0 :: declaration.tokens) =
      [token .name "native" 0 :: declaration.tokens] := by decide +kernel
  have hform : Statement.form? (Engine.standard {}).forms (token .name "native" 0) =
      some form := rfl
  have hparse := parse_eq_declaration hscan (hruns ▸ List.mem_singleton_self _) hform
  rw [Engine.parse_eq_map _ hscan hruns,
    ← Statement.parseOne_slices _ hscan (hruns ▸ List.mem_singleton_self _),
    (hparse.1 _).mpr ⟨declaration, rfl, rfl⟩]
  rfl

end Native

end TypedMemory
