import TypedMemory.Proofs.Script.Parsing

/-!
# What a form takes

The parser of statements with a form does one of three things at each step, by what the form
expects: it ends, or it takes a single token, or it takes an expression. Here each of these is
an equation (`TypedMemory.StatementForm.pieces_of_none`, `pieces_of_single` and
`pieces_of_expr`). From the equations it follows which tokens are accepted, and that whatever is
not is refused with a parse error that has a place (`TypedMemory.StatementForm.pieces_fails`).
-/

namespace TypedMemory.StatementForm

/-! ### One step -/

section Step

variable {form : StatementForm} {spans : SpanParsers} {symbols : List Text} {tokens : List Token}

/-- Where nothing is expected the statement has to end. -/
theorem pieces_of_none (last : Position) : form.next symbols (lookAhead tokens) = none →
    form.pieces spans last symbols tokens = match tokens with
      | [] => .ok []
      | t :: _ => Error.fail (.parse (.trailing t.text form.keyword) (some t.position)) := by
  intro h
  rw [pieces.eq_def, h]
  cases tokens <;> rfl

/-- Where a single token is expected, a token that is accepted is taken. -/
theorem pieces_of_single (last : Position) {expected : Expectation} :
    form.next symbols (lookAhead tokens) = some expected → expected ≠ .expr →
    form.pieces spans last symbols tokens = match tokens with
      | [] => Error.fail (.parse (.statementEnded form.keyword expected.text) (some last))
      | t :: rest =>
        if expected.accepts t then do
          let more ← form.pieces spans last (symbols ++ [t.text]) rest
          pure (if expected.isKept then ⟨expected, t, none⟩ :: more else more)
        else
          Error.fail
            (.parse (.expectedPiece expected.text form.keyword t.text) (some t.position)) := by
  intro h hsingle
  rw [pieces.eq_def, h]
  cases tokens with
  | nil => rfl
  | cons t rest =>
    cases expected with
    | expr => exact absurd rfl hsingle
    | _ => rfl

/-- Where an expression is expected, the tokens up to its end are taken. -/
theorem pieces_of_expr (last : Position) : form.next symbols (lookAhead tokens) = some .expr →
    form.pieces spans last symbols tokens = match tokens, Token.expressionSpan 0 tokens with
      | [], _ =>
        Error.fail (.parse (.statementEnded form.keyword Expectation.expr.text) (some last))
      | t :: _, ([], _) => Error.fail (.parse (.expectedExpression t.text) (some t.position))
      | t :: _, (first :: inside, behind) => (do
        let tree ← spans.expression first inside
        let more ← form.pieces spans last (symbols ++ [Expectation.expr.text]) behind
        pure (⟨.expr, t, some tree⟩ :: more)) := by
  intro h
  rw [pieces.eq_def, h]
  cases tokens with
  | nil => rfl
  | cons t rest =>
    dsimp only
    split <;> rename_i hspan <;> rw [hspan]

/-! ### What is accepted -/

variable {last : Position} {ps : List Piece}

theorem pieces_eq_ok_iff_of_none (hnext : form.next symbols (lookAhead tokens) = none) :
    form.pieces spans last symbols tokens = .ok ps ↔ tokens = [] ∧ ps = [] := by
  rw [pieces_of_none last hnext]
  cases tokens with
  | nil => simp [eq_comm]
  | cons t rest => simp [Error.fail]

theorem pieces_eq_ok_iff_of_single {expected : Expectation}
    (hnext : form.next symbols (lookAhead tokens) = some expected) (hsingle : expected ≠ .expr) :
    form.pieces spans last symbols tokens = .ok ps ↔ ∃ t rest more, tokens = t :: rest ∧
      expected.accepts t = true ∧ form.pieces spans last (symbols ++ [t.text]) rest = .ok more ∧
      ps = if expected.isKept then ⟨expected, t, none⟩ :: more else more := by
  rw [pieces_of_single last hnext hsingle]
  constructor
  · intro h
    split at h
    · cases h
    · next t rest =>
      split at h
      · next haccepts =>
        obtain ⟨more, hmore, h⟩ := exists_of_bind_eq_ok h
        exact ⟨t, rest, more, rfl, haccepts, hmore, (Except.ok.inj h).symm⟩
      · cases h
  · rintro ⟨t, rest, more, rfl, haccepts, hmore, rfl⟩
    dsimp only
    rw [if_pos haccepts, hmore]
    rfl

theorem pieces_eq_ok_iff_of_expr (hnext : form.next symbols (lookAhead tokens) = some .expr) :
    form.pieces .tokens last symbols tokens = .ok ps ↔
      ∃ (e : Grammar.Expression) (first : Token) (behind : List Token) (more : List Piece),
        e.tokens.head? = some first ∧ Token.expressionSpan 0 tokens = (e.tokens, behind) ∧
          form.pieces .tokens last (symbols ++ [Expectation.expr.text]) behind = .ok more ∧
          ps = ⟨.expr, first, some e.expr⟩ :: more := by
  have happend := Token.expressionSpan_append 0 tokens
  rw [pieces_of_expr last hnext]
  constructor
  · intro h
    split at h
    · cases h
    · cases h
    · next t rest first inside behind hspan =>
      rw [hspan] at happend
      obtain ⟨rfl, -⟩ := List.cons.inj happend
      obtain ⟨tree, htree, h⟩ := exists_of_bind_eq_ok h
      obtain ⟨more, hmore, h⟩ := exists_of_bind_eq_ok h
      obtain ⟨e, he, rfl⟩ := Expr.parse_eq_ok_iff.mp htree
      exact ⟨e, first, behind, more, by rw [he]; rfl, by rw [he, hspan], hmore,
        (Except.ok.inj h).symm⟩
  · rintro ⟨e, first, behind, more, hfirst, hspan, hmore, rfl⟩
    obtain ⟨inside, he⟩ := List.head?_eq_some_iff.mp hfirst
    have hparse : SpanParsers.tokens.expression first inside = .ok e.expr :=
      Expr.parse_eq_ok_iff.mpr ⟨e, he, rfl⟩
    rw [hspan, he] at happend
    subst happend
    rw [hspan, he]
    dsimp only [List.cons_append]
    rw [hparse, hmore]
    rfl

end Step

/-- **A refused statement with a form** is a parse error, and has a place. -/
theorem pieces_fails {form : StatementForm} {last : Position} {symbols : List Text}
    {tokens : List Token} {e : Error} (h : form.pieces .tokens last symbols tokens = .error e) :
    ∃ cause place, e = .parse cause (some place) := by
  induction hn : tokens.length using Nat.strongRecOn generalizing symbols tokens with
  | _ n ih =>
  subst hn
  cases hnext : form.next symbols (lookAhead tokens) with
  | none =>
    rw [pieces_of_none last hnext] at h
    split at h
    · cases h
    · exact ⟨_, _, (Except.error.inj h).symm⟩
  | some expected =>
    by_cases hexpr : expected = .expr
    · subst hexpr
      rw [pieces_of_expr last hnext] at h
      split at h
      · exact ⟨_, _, (Except.error.inj h).symm⟩
      · exact ⟨_, _, (Except.error.inj h).symm⟩
      · next t rest first inside behind hspan =>
        have hshorter : behind.length < (t :: rest).length := by
          have hlength := congrArg List.length (Token.expressionSpan_append 0 (t :: rest))
          simp only [hspan, List.length_append, List.length_cons] at hlength ⊢
          omega
        rcases or_of_bind_eq_error h with h | ⟨tree, -, h⟩
        · exact Expr.parse_fails h
        rcases or_of_bind_eq_error h with h | ⟨more, -, h⟩
        · exact ih behind.length hshorter h rfl
        · cases h
    · rw [pieces_of_single last hnext hexpr] at h
      split at h
      · exact ⟨_, _, (Except.error.inj h).symm⟩
      · next t rest =>
        split at h
        · rcases or_of_bind_eq_error h with h | ⟨more, -, h⟩
          · exact ih rest.length (Nat.lt_succ_self _) h rfl
          · cases h
        · exact ⟨_, _, (Except.error.inj h).symm⟩

end TypedMemory.StatementForm
