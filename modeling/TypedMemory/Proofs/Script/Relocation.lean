import TypedMemory.Proofs.Script.Forms
import TypedMemory.Proofs.Script.Slices

/-!
# The same tokens at other places

Parsing goes by what tokens are. Where they stand is only told, of a failure, and handed on with
the pieces of a statement. So tokens at other places are parsed to the same statements, with the
other places in them, or are refused where they were refused before.

A **relocation** gives every token another place and says how the failures at the old places are
told at the new ones. What is asked of it is no more than that the failures that parsing can
meet are told: of a token, and of the second half of a double `=`, the one thing refused that is
no token itself. All steps of parsing then correspond, down to
`TypedMemory.Relocation.corresponds_parseRuns`.
-/

namespace TypedMemory

/-- **Other places for tokens.** -/
structure Relocation where
  token : Token → Token
  kind_token : ∀ t, (token t).kind = t.kind
  text_token : ∀ t, (token t).text = t.text
  /-- How a failure at the old places is told at the new ones. -/
  Tells : Error → Error → Prop
  tells_token : ∀ cause t, Tells (.parse cause (some t.position))
    (.parse cause (some (token t).position))
  tells_half : ∀ t rest,
    let half := t.secondHalf rest
    let half' := (token t).secondHalf (rest.map token)
    Tells (.parse (.unexpectedToken half.text) (some half.position))
      (.parse (.unexpectedToken half'.text) (some half'.position))

namespace Relocation

variable (r : Relocation)

attribute [simp] kind_token text_token

/-- The piece at its other place. -/
def piece (p : Piece) : Piece := { p with token := r.token p.token }

/-- The statement at its other place. -/
def statement : Statement → Statement
  | .custom keyword pieces => .custom keyword (pieces.map r.piece)
  | st => st

/-- Whatever is told of the one place is told of the other. -/
def Meets (p p' : Position) : Prop :=
  ∀ cause, r.Tells (.parse cause (some p)) (.parse cause (some p'))

theorem meets_token (t : Token) : r.Meets t.position (r.token t).position := fun cause =>
  r.tells_token cause t

/-- **What comes at the other places**: what is made of it by a map, or a failure that is
told. -/
inductive Corresponds {α β : Type} (f : α → β) : Except Error α → Except Error β → Prop
  | ok (a : α) : Corresponds f (.ok a) (.ok (f a))
  | error {e e' : Error} (h : r.Tells e e') : Corresponds f (.error e) (.error e')

variable {r}

theorem Corresponds.cases {α β : Type} {f : α → β} {x : Except Error α} {x' : Except Error β}
    (h : r.Corresponds f x x') : (∃ a, x = .ok a ∧ x' = .ok (f a)) ∨
      ∃ e e', x = .error e ∧ x' = .error e' ∧ r.Tells e e' := by
  cases h with
  | ok a => exact .inl ⟨a, rfl, rfl⟩
  | error htells => exact .inr ⟨_, _, rfl, rfl, htells⟩

/-- A step that corresponds behind one that does makes two that do. -/
theorem Corresponds.bind {α α' β β' : Type} {f : α → α'} {g : β → β'} {x : Except Error α}
    {x' : Except Error α'} {h : α → Except Error β} {h' : α' → Except Error β'}
    (hx : r.Corresponds f x x') (hstep : ∀ a, r.Corresponds g (h a) (h' (f a))) :
    r.Corresponds g (x >>= h) (x' >>= h') := by
  cases hx with
  | ok a => exact hstep a
  | error htells => exact .error htells

/-- A failure that is told of a token and its text. -/
theorem corresponds_refused {α β : Type} {f : α → β} (cause : Text → ParseCause) (t : Token) :
    r.Corresponds f (Error.fail (.parse (cause t.text) (some t.position)))
      (Error.fail (.parse (cause (r.token t).text) (some (r.token t).position))) := by
  rw [text_token]
  exact .error (r.tells_token _ t)

variable (r)

/-! ### Where statements and expressions end -/

theorem depthAfter_token (depth : Nat) (t : Token) :
    (r.token t).depthAfter depth = t.depthAfter depth := by
  simp only [Token.depthAfter, kind_token]

/-- Statements end where they did. -/
theorem runs_map (depth : Nat) (tokens : List Token) :
    Token.runs depth (tokens.map r.token) = (Token.runs depth tokens).map (List.map r.token) := by
  induction tokens generalizing depth with
  | nil => rfl
  | cons t rest ih =>
    rw [List.map_cons, Token.runs, Token.runs, kind_token, depthAfter_token, ih, ih]
    split
    · rfl
    · cases Token.runs (t.depthAfter depth) rest <;> rfl

theorem statements_map (tokens : List Token) :
    Token.statements (tokens.map r.token) = (Token.statements tokens).map (List.map r.token) := by
  simp [Token.statements, runs_map, List.filter_map, Function.comp_def]

/-- Expressions end where they did. -/
theorem expressionSpan_map (depth : Nat) (tokens : List Token) :
    Token.expressionSpan depth (tokens.map r.token) =
      ((Token.expressionSpan depth tokens).1.map r.token,
        (Token.expressionSpan depth tokens).2.map r.token) := by
  induction tokens generalizing depth with
  | nil => rfl
  | cons t rest ih =>
    rw [List.map_cons, Token.expressionSpan, Token.expressionSpan, kind_token, depthAfter_token,
      ih]
    split <;> rfl

/-! ### Spans -/

variable {r}

/-- What a parser takes it takes anywhere, if what it makes has no places. -/
theorem corresponds_run {σ ρ : Type} {p : Parser σ ρ} (hp : p.GoesByTokens) {f : ρ → ρ}
    (hf : ∀ s v, p.result? s = some v → f v = v) (s : σ) {last last' : Position}
    (hlast : r.Meets last last') (tokens : List Token) :
    r.Corresponds f (p.run s last tokens) (p.run s last' (tokens.map r.token)) := by
  induction tokens generalizing s last last' with
  | nil =>
    rw [List.map_nil, Parser.run, Parser.run, Parser.finish, Parser.finish]
    cases hv : p.result? s with
    | some v => simpa only [hf s v hv] using Corresponds.ok (f := f) v
    | none => exact .error (hlast _)
  | cons t rest ih =>
    rw [List.map_cons, Parser.run, Parser.run, hp.step_eq s (r.kind_token t) (r.text_token t)]
    cases p.step s t with
    | some s' => exact ih s' (r.meets_token t)
    | none =>
      dsimp only
      rw [Parser.refused, Parser.refused, kind_token]
      split
      · exact .error (r.tells_half t rest)
      · exact corresponds_refused .unexpectedToken t

/-- An expression is the same expression. -/
theorem corresponds_expression (first : Token) (rest : List Token) :
    r.Corresponds id (SpanParsers.tokens.expression first rest)
      (SpanParsers.tokens.expression (r.token first) (rest.map r.token)) :=
  corresponds_run Expr.goesByTokens_parser (fun _ _ _ => rfl) _ (r.meets_token first)
    (first :: rest)

/-- A binding or an expression is the same. -/
theorem corresponds_statement (first : Token) (rest : List Token) :
    r.Corresponds r.statement (SpanParsers.tokens.statement first rest)
      (SpanParsers.tokens.statement (r.token first) (rest.map r.token)) := by
  refine corresponds_run Statement.goesByTokens_parser (fun s v hv => ?_) _
    (r.meets_token first) (first :: rest)
  rcases Statement.State.of_result? hv with ⟨name, value, rfl⟩ | ⟨value, rfl⟩ <;> rfl

/-! ### Statements with a form -/

theorem lookAhead_map (tokens : List Token) :
    lookAhead (tokens.map r.token) = lookAhead tokens := by
  cases tokens with
  | nil => rfl
  | cons t rest => exact r.text_token t

theorem accepts_token (expected : Expectation) (t : Token) :
    expected.accepts (r.token t) = expected.accepts t := by
  cases expected <;> simp only [Expectation.accepts, kind_token, text_token]

/-- The pieces of a statement. -/
theorem corresponds_pieces (form : StatementForm) {last last' : Position}
    (hlast : r.Meets last last') (symbols : List Text) (tokens : List Token) :
    r.Corresponds (List.map r.piece) (form.pieces .tokens last symbols tokens)
      (form.pieces .tokens last' symbols (tokens.map r.token)) := by
  induction hn : tokens.length using Nat.strongRecOn generalizing symbols tokens with
  | _ n ih =>
  subst hn
  have hahead := lookAhead_map (r := r) tokens
  cases hnext : form.next symbols (lookAhead tokens) with
  | none =>
    rw [StatementForm.pieces_of_none _ hnext, StatementForm.pieces_of_none _ (hahead ▸ hnext)]
    cases tokens with
    | nil => exact .ok []
    | cons t rest => exact corresponds_refused (.trailing · form.keyword) t
  | some expected =>
    by_cases hexpr : expected = .expr
    · subst hexpr
      rw [StatementForm.pieces_of_expr _ hnext, StatementForm.pieces_of_expr _ (hahead ▸ hnext),
        expressionSpan_map]
      cases tokens with
      | nil => exact .error (hlast _)
      | cons t rest =>
        rcases hspan : Token.expressionSpan 0 (t :: rest) with ⟨_ | ⟨first, inside⟩, behind⟩
        · exact corresponds_refused .expectedExpression t
        · have hshorter : behind.length < (t :: rest).length := by
            have hlength := congrArg List.length (Token.expressionSpan_append 0 (t :: rest))
            simp only [hspan, List.length_append, List.length_cons] at hlength ⊢
            omega
          refine (corresponds_expression first inside).bind fun tree => ?_
          refine (ih behind.length hshorter _ _ rfl).bind fun more => ?_
          exact .ok _
    · rw [StatementForm.pieces_of_single _ hnext hexpr,
        StatementForm.pieces_of_single _ (hahead ▸ hnext) hexpr]
      cases tokens with
      | nil => exact .error (hlast _)
      | cons t rest =>
        simp only [List.map_cons, accepts_token, text_token]
        split
        · refine (ih rest.length (Nat.lt_succ_self _) _ _ rfl).bind fun more => ?_
          split <;> exact .ok _
        · exact .error (r.tells_token _ t)

/-! ### Statements -/

theorem corresponds_parseOne (forms : List StatementForm) (first : Token) (rest : List Token) :
    r.Corresponds r.statement (Statement.parseOne .tokens forms first rest)
      (Statement.parseOne .tokens forms (r.token first) (rest.map r.token)) := by
  have hform : Statement.form? forms (r.token first) = Statement.form? forms first := by
    simp only [Statement.form?, kind_token, text_token]
  have hlast : r.Meets (Statement.lastPosition first rest)
      (Statement.lastPosition (r.token first) (rest.map r.token)) := by
    have hmap := List.getLast_map (f := r.token) (l := first :: rest) (List.cons_ne_nil _ _)
    have hplace : Statement.lastPosition (r.token first) (rest.map r.token) =
        (r.token ((first :: rest).getLast (by simp))).position := congrArg Token.position hmap
    rw [hplace]
    exact r.meets_token _
  rw [Statement.parseOne, Statement.parseOne, hform]
  cases Statement.form? forms first with
  | some form =>
    refine (corresponds_pieces form hlast [form.keyword] rest).bind fun pieces => ?_
    exact .ok _
  | none => exact corresponds_statement first rest

/-- **Statements at other places** are the same statements, or are refused for what is told of the
other places. -/
theorem corresponds_parseRuns (forms : List StatementForm) (runs : List (List Token)) :
    r.Corresponds (List.map r.statement) (Statement.parseRuns .tokens forms runs)
      (Statement.parseRuns .tokens forms (runs.map (List.map r.token))) := by
  induction runs with
  | nil => exact .ok []
  | cons run runs ih =>
    cases run with
    | nil => exact ih
    | cons first rest =>
      refine (corresponds_parseOne forms first rest).bind fun st => ?_
      refine ih.bind fun more => ?_
      exact .ok _

end Relocation

end TypedMemory
