import TypedMemory.Proofs.Effect
import TypedMemory.Script.Parse

/-!
# Numerals of a script are not negative

A minus sign is a token of its own, so the tokens that are numerals begin with a digit
(`TypedMemory.Token.startsWithDigit_of_scanFrom`). What a form takes for a number in a statement is
such a token, and so a number that is read off a piece of a parsed script is not negative
(`TypedMemory.Statement.isNatural_of_parse`), although the reading of numerals would know about
signs.
-/

namespace TypedMemory

namespace Numeral

/-- A numeral that begins with a digit has no sign. -/
theorem read?_nonneg {radix : Radix} {c : CodePoint} {rest : Text} (hc : c.isDigit = true) {n : Int}
    (h : read? radix (c :: rest) = some n) : 0 ≤ n := by
  have hval : 48 ≤ c.val ∧ c.val ≤ 57 := by
    simpa only [CodePoint.isDigit, Bool.and_eq_true, decide_eq_true_eq] using hc
  have hfold : fold c = c := by rw [fold, if_pos (by omega)]
  have hblank : isBlank c = false := by
    simp only [isBlank, Bool.or_eq_false_iff, Bool.and_eq_false_iff, decide_eq_false_iff_not,
      beq_eq_false_iff_ne]
    omega
  have hminus : c ≠ '-' := by
    rintro rfl
    revert hval
    decide
  -- Blanks are dropped on both sides of the digit, which stays in front.
  obtain ⟨more, hmore⟩ : ∃ more, ((List.dropWhile isBlank ((c :: rest).map fold)).reverse.dropWhile
      isBlank).reverse = c :: more := by
    rw [List.map_cons, hfold, List.dropWhile_cons_of_neg (by rw [hblank]; nofun),
      List.reverse_cons, List.dropWhile_append]
    split
    · rw [List.dropWhile_cons_of_neg (by rw [hblank]; nofun)]
      exact ⟨[], rfl⟩
    · exact ⟨_, List.reverse_append⟩
  simp only [read?, hmore] at h
  rw [if_neg hminus] at h
  split at h
  · obtain ⟨k, -, rfl⟩ := Option.map_eq_some_iff.mp h
    exact Int.natCast_nonneg k
  · obtain ⟨k, -, rfl⟩ := Option.map_eq_some_iff.mp h
    exact Int.natCast_nonneg k

end Numeral

/-! ### Tokens -/

namespace Token

/-- A numeral without a point. -/
def IsWhole (t : Token) : Prop := t.kind = .int ∨ t.kind = .hexNumber

/-- The text begins with a digit. -/
def StartsWithDigit (t : Token) : Prop := ∃ c rest, t.text = c :: rest ∧ c.isDigit = true

theorem mem_of_lookup {α β : Type} [BEq α] [LawfulBEq α] {table : List (α × β)} {a : α} {b : β}
    (h : table.lookup a = some b) : (a, b) ∈ table := by
  obtain ⟨l₁, l₂, rfl, -⟩ := List.lookup_eq_some_iff.mp h
  exact List.mem_append_right l₁ List.mem_cons_self

/-- No symbol is a numeral. -/
theorem not_isWhole_of_symbolShape? {c : CodePoint} {rest : Text} {kind : TokenKind}
    {length : Nat} (h : symbolShape? c rest = some (kind, length)) :
    ¬(kind = .int ∨ kind = .hexNumber) := by
  have hsymbols : ∀ p ∈ symbols, ¬(p.2 = .int ∨ p.2 = .hexNumber) := by decide
  have hdoubles : ∀ p ∈ doubleSymbols, ¬(p.2 = .int ∨ p.2 = .hexNumber) := by decide
  rw [symbolShape?] at h
  split at h
  case h_1 k hk =>
    cases h
    obtain ⟨d, -, hd⟩ := Option.bind_eq_some_iff.mp hk
    exact hdoubles _ (mem_of_lookup hd)
  case h_2 =>
    obtain ⟨k, hk, heq⟩ := Option.map_eq_some_iff.mp h
    cases heq
    exact hsymbols _ (mem_of_lookup hk)

theorem not_isWhole_nameKind (t : Text) : ¬(nameKind t = .int ∨ nameKind t = .hexNumber) := by
  rw [nameKind]
  repeat' split
  all_goals nofun

/-- A numeral without a point begins with a digit, and is as long as numbers are. -/
theorem numberShape_of_lexeme? {c : CodePoint} {rest : Text} {kind : TokenKind} {length : Nat}
    (h : lexeme? c rest = some (some kind, length)) (hkind : kind = .int ∨ kind = .hexNumber) :
    c.isDigit = true ∧ numberShape c rest = (kind, length) := by
  rw [lexeme?] at h
  split at h
  · cases h
  · split at h
    · cases h
    · split at h
      · cases h
        exact absurd hkind (not_isWhole_nameKind _)
      · split at h
        case isTrue hc =>
          cases h
          exact ⟨hc, rfl⟩
        case isFalse =>
          split at h
          · obtain ⟨k, -, heq⟩ := Option.map_eq_some_iff.mp h
            cases heq
            rcases hkind with hkind | hkind <;> cases hkind
          · obtain ⟨⟨k, n⟩, hk, heq⟩ := Option.map_eq_some_iff.mp h
            cases heq
            exact absurd hkind (not_isWhole_of_symbolShape? hk)

/-- What the tokens of a text are, by what its first code point starts. -/
theorem exists_of_scanFrom_cons {position : Position} {offset : Nat} {c : CodePoint} {rest : Text}
    {tokens : List Token} (h : scanFrom position offset (c :: rest) = .ok tokens) :
    ∃ kind? length more, lexeme? c rest = some (kind?, length) ∧
      scanFrom (position.behind (c :: rest.take length))
        (offset + (c :: rest.take length).length) (rest.drop length) = .ok more ∧
      tokens = match kind? with
        | none => more
        | some kind => ⟨kind, c :: rest.take length, position, offset⟩ :: more := by
  rw [scanFrom] at h
  split at h
  case h_1 => cases h
  case h_2 kind? length hlexeme =>
    obtain ⟨more, hmore, h⟩ := exists_of_bind_eq_ok h
    refine ⟨kind?, length, more, hlexeme, hmore, ?_⟩
    cases kind? <;> exact (Except.ok.inj h).symm

/-- **The numerals among the tokens** begin with a digit. -/
theorem startsWithDigit_of_scanFrom {position : Position} {offset : Nat} {t : Text}
    {tokens : List Token} (h : scanFrom position offset t = .ok tokens) :
    ∀ k ∈ tokens, k.IsWhole → k.StartsWithDigit := by
  match t with
  | [] =>
    rw [scanFrom] at h
    cases h
    exact fun k hk => absurd hk List.not_mem_nil
  | c :: rest =>
    obtain ⟨kind?, length, more, hlexeme, hmore, rfl⟩ := exists_of_scanFrom_cons h
    have hrest := startsWithDigit_of_scanFrom hmore
    cases kind? with
    | none => exact hrest
    | some kind =>
      refine List.forall_mem_cons.mpr ⟨fun hwhole => ?_, hrest⟩
      exact ⟨c, rest.take length, rfl, (numberShape_of_lexeme? hlexeme hwhole).1⟩
termination_by t.length
decreasing_by simp only [List.length_drop, List.length_cons]; omega

/-! ### Statements -/

/-- The first statement is in front of the tokens, and the others are further on. -/
theorem runs_eq_cons {depth : Nat} {tokens first : List Token} {more : List (List Token)}
    (h : runs depth tokens = first :: more) : first <+: tokens ∧ ∀ run ∈ more, run <:+: tokens := by
  induction tokens generalizing depth first more with
  | nil =>
    cases h
    exact ⟨List.prefix_rfl, nofun⟩
  | cons t rest ih =>
    rw [runs] at h
    split at h
    · cases h
      refine ⟨List.nil_prefix, fun run hrun => List.infix_cons ?_⟩
      rcases hrest : runs depth rest with _ | ⟨first, more⟩
      · rw [hrest] at hrun
        cases hrun
      · obtain ⟨hfirst, hmore⟩ := ih hrest
        rw [hrest] at hrun
        rcases List.mem_cons.mp hrun with rfl | hrun
        · exact hfirst.isInfix
        · exact hmore run hrun
    · split at h
      · cases h
        exact ⟨List.cons_prefix_cons.mpr ⟨rfl, List.nil_prefix⟩, nofun⟩
      · next hrest =>
        cases h
        obtain ⟨hfirst, hmore⟩ := ih hrest
        exact ⟨List.cons_prefix_cons.mpr ⟨rfl, hfirst⟩, fun run hrun =>
          List.infix_cons (hmore run hrun)⟩

/-- **A statement** is some of the tokens one after another. -/
theorem isInfix_of_mem_runs {depth : Nat} {tokens run : List Token} (h : run ∈ runs depth tokens) :
    run <:+: tokens := by
  rcases hruns : runs depth tokens with _ | ⟨first, more⟩
  · rw [hruns] at h
    cases h
  · obtain ⟨hfirst, hmore⟩ := runs_eq_cons hruns
    rw [hruns] at h
    rcases List.mem_cons.mp h with rfl | h
    · exact hfirst.isInfix
    · exact hmore run h

theorem mem_of_mem_runs {depth : Nat} {tokens run : List Token} (h : run ∈ runs depth tokens) :
    ∀ t ∈ run, t ∈ tokens :=
  fun _ ht => (isInfix_of_mem_runs h).mem ht

end Token

/-- What a parser reads is what it says at some end. -/
theorem Parser.exists_of_read {σ ρ : Type} {p : Parser σ ρ} {s : σ} {last position : Position}
    {offset : Nat} {t : Text} {v : ρ} (h : p.read s last position offset t = .ok v) :
    ∃ s', p.result? s' = some v := by
  fun_induction p.read s last position offset t with
  | case1 s =>
    rw [finish] at h
    split at h
    · next hv => exact ⟨s, hv.trans (congrArg some (Except.ok.inj h))⟩
    · cases h
  | case2 _ _ _ _ _ _ _ _ _ ih => exact ih h
  | case3 _ _ _ _ _ _ _ _ _ _ _ _ ih => exact ih h
  | case4 | case5 | case6 => cases h

/-! ### Pieces -/

/-- If the piece is a number, it is not a negative one. -/
def Piece.IsNatural (p : Piece) : Prop := ∀ n, p.literal = .ok (some n) → 0 ≤ n

/-- No piece of the statement is a negative number. -/
def Statement.IsNatural : Statement → Prop
  | .custom _ pieces => ∀ p ∈ pieces, p.IsNatural
  | _ => True

theorem Piece.isNatural_of_startsWithDigit {p : Piece}
    (h : p.kind = .int → p.token.StartsWithDigit) : p.IsNatural := by
  intro n hn
  rw [literal] at hn
  split at hn
  case isTrue hkind =>
    obtain ⟨c, rest, htext, hc⟩ := h hkind
    rw [Piece.text, htext] at hn
    split at hn
    case h_1 k hk =>
      cases hn
      exact Numeral.read?_nonneg hc hk
    case h_2 => cases hn
  case isFalse => cases hn

namespace StatementForm

variable {spans : SpanParsers}

/-- **What a row of pieces begins with**: an expression, a token that is kept or passed, or
nothing at all. -/
theorem exists_of_pieces {form : StatementForm} {last : Position} {symbols : List Text}
    {tokens : List Token} {pieces : List Piece}
    (h : form.pieces spans last symbols tokens = .ok pieces) :
    pieces = [] ∨
    (∃ t tree symbols' before behind more, before ≠ [] ∧ tokens = before ++ behind ∧
      form.pieces spans last symbols' behind = .ok more ∧ pieces = ⟨.expr, t, some tree⟩ :: more) ∨
    ∃ expected t symbols' rest more, tokens = t :: rest ∧
      form.pieces spans last symbols' rest = .ok more ∧ expected.accepts t = true ∧
      pieces = if expected.isKept then ⟨expected, t, none⟩ :: more else more := by
  rw [StatementForm.pieces.eq_def] at h
  split at h
  · cases h
    exact Or.inl rfl
  · cases h
  · cases h
  · split at h
    case h_1 => cases h
    case h_2 t rest _ first inside behind hspan =>
      have happend := Token.expressionSpan_append 0 (t :: rest)
      rw [hspan] at happend
      obtain ⟨tree, -, h⟩ := exists_of_bind_eq_ok h
      obtain ⟨more, hmore, h⟩ := exists_of_bind_eq_ok h
      cases h
      exact Or.inr (.inl ⟨t, tree, _, first :: inside, behind, more, List.cons_ne_nil _ _,
        happend.symm, hmore, rfl⟩)
  · split at h
    case isTrue haccepts =>
      obtain ⟨more, hmore, h⟩ := exists_of_bind_eq_ok h
      cases h
      exact Or.inr (.inr ⟨_, _, _, _, more, rfl, hmore, haccepts, rfl⟩)
    case isFalse => cases h

/-- The numbers among the pieces are tokens that begin with a digit. -/
theorem isNatural_of_pieces {form : StatementForm} {last : Position} {symbols : List Text}
    {tokens : List Token} {pieces : List Piece}
    (ht : ∀ t ∈ tokens, t.IsWhole → t.StartsWithDigit)
    (h : form.pieces spans last symbols tokens = .ok pieces) : ∀ p ∈ pieces, p.IsNatural := by
  rcases exists_of_pieces h with rfl |
    ⟨t, tree, symbols', before, behind, more, hne, htokens, hmore, rfl⟩ |
    ⟨expected, t, symbols', rest, more, htokens, hmore, haccepts, rfl⟩
  · exact nofun
  · have hshorter : behind.length < tokens.length := by
      have := List.length_pos_iff.mpr hne
      rw [htokens, List.length_append]
      omega
    have hbehind : ∀ t ∈ behind, t.IsWhole → t.StartsWithDigit := fun t h =>
      ht t (by rw [htokens]; exact List.mem_append_right before h)
    refine List.forall_mem_cons.mpr ⟨?_, isNatural_of_pieces hbehind hmore⟩
    exact Piece.isNatural_of_startsWithDigit nofun
  · have hshorter : rest.length < tokens.length := by
      rw [htokens, List.length_cons]
      omega
    rw [htokens, List.forall_mem_cons] at ht
    have hrest := isNatural_of_pieces ht.2 hmore
    split
    · refine List.forall_mem_cons.mpr ⟨?_, hrest⟩
      refine Piece.isNatural_of_startsWithDigit fun hkind => ht.1 ?_
      change expected = .int at hkind
      subst hkind
      simpa [Expectation.accepts, Token.IsWhole] using haccepts
    · exact hrest
termination_by tokens.length

end StatementForm

namespace Statement

variable {spans : SpanParsers} {forms : List StatementForm}

/-- What is parsed without a form is a binding or an expression. -/
theorem State.of_result? {s : State} {st : Statement} (h : s.result? = some st) :
    (∃ name value, st = .binding name value) ∨ ∃ value, st = .expression value := by
  cases s with
  | value name? s =>
    cases name? with
    | none =>
      obtain ⟨v, -, rfl⟩ := Option.map_eq_some_iff.mp h
      exact .inr ⟨v, rfl⟩
    | some name =>
      obtain ⟨v, -, rfl⟩ := Option.map_eq_some_iff.mp h
      exact .inl ⟨name, v, rfl⟩
  | _ => cases h

/-- What is parsed from a span has no pieces. -/
theorem isNatural_of_slices {t : Text} {first : Token} {rest : List Token} {statement : Statement}
    (h : (SpanParsers.slices t).statement first rest = .ok statement) : statement.IsNatural := by
  obtain ⟨s, hs⟩ := Parser.exists_of_read (mapError_eq_ok_iff.mp h)
  rcases State.of_result? hs with ⟨name, value, rfl⟩ | ⟨value, rfl⟩ <;> trivial

theorem isNatural_of_parseOne {first : Token} {rest : List Token} {statement : Statement}
    (hspan : spans.statement first rest = .ok statement → statement.IsNatural)
    (ht : ∀ t ∈ first :: rest, t.IsWhole → t.StartsWithDigit)
    (h : parseOne spans forms first rest = .ok statement) : statement.IsNatural := by
  rw [List.forall_mem_cons] at ht
  rw [parseOne] at h
  split at h
  case h_1 form _ =>
    obtain ⟨pieces, hpieces, h⟩ := exists_of_bind_eq_ok h
    cases h
    exact StatementForm.isNatural_of_pieces ht.2 hpieces
  case h_2 => exact hspan h

/-- Every statement is that of one run of tokens. -/
theorem exists_of_mem_parseRuns {runs : List (List Token)} {statements : List Statement}
    (h : parseRuns spans forms runs = .ok statements) : ∀ s ∈ statements,
      ∃ first rest, first :: rest ∈ runs ∧ parseOne spans forms first rest = .ok s := by
  induction runs generalizing statements with
  | nil =>
    cases h
    exact nofun
  | cons run runs ih =>
    have hlater : ∀ {more : List Statement}, parseRuns spans forms runs = .ok more → ∀ s ∈ more,
        ∃ first rest, first :: rest ∈ run :: runs ∧ parseOne spans forms first rest = .ok s := by
      intro more hmore s hs
      obtain ⟨first, rest, hrun, hparse⟩ := ih hmore s hs
      exact ⟨first, rest, List.mem_cons_of_mem _ hrun, hparse⟩
    cases run with
    | nil => exact hlater h
    | cons first rest =>
      obtain ⟨statement, hstatement, h⟩ := exists_of_bind_eq_ok h
      obtain ⟨more, hmore, h⟩ := exists_of_bind_eq_ok h
      cases h
      exact List.forall_mem_cons.mpr
        ⟨⟨first, rest, List.mem_cons_self, hstatement⟩, hlater hmore⟩

/-- **The numbers in the statements of a script** are not negative, whatever the forms. -/
theorem isNatural_of_parse {t : Text} {statements : List Statement}
    (h : parse forms t = .ok statements) : ∀ s ∈ statements, s.IsNatural := by
  obtain ⟨tokens, htokens, h⟩ := exists_of_bind_eq_ok h
  intro s hs
  obtain ⟨first, rest, hrun, hparse⟩ := exists_of_mem_parseRuns h s hs
  refine isNatural_of_parseOne isNatural_of_slices (fun t ht => ?_) hparse
  have hmem := Token.mem_of_mem_runs (List.mem_filter.mp hrun).1 t ht
  exact Token.startsWithDigit_of_scanFrom htokens t hmem

end Statement

end TypedMemory
