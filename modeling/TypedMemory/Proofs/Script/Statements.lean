import TypedMemory.Proofs.Script.Forms
import TypedMemory.Proofs.Script.Slices
import TypedMemory.Script.Native

/-!
# The statements of a script

The spans of a script are parsed from its text, but it does not matter: the statements of a script
are those that its tokens make (`TypedMemory.Statement.parse_eq`). A statement is some of the tokens
one after another, and so is each expression in a statement with a form, so that each of these spans
has its slice, and parsing the slice is parsing the tokens
(`TypedMemory.Parser.GoesByTokens.parseSpan_eq`).

With it the grammar says what a script of one statement is parsed as
(`TypedMemory.Engine.parse_eq_derivation`).
-/

namespace TypedMemory

/-! ### Spans and their tokens -/

/-- The spans of these tokens are parsed alike in two ways. -/
structure SpanParsers.Agree (a b : SpanParsers) (tokens : List Token) : Prop where
  statement : ∀ first rest, first :: rest <:+: tokens →
    a.statement first rest = b.statement first rest
  expression : ∀ first rest, first :: rest <:+: tokens →
    a.expression first rest = b.expression first rest

namespace SpanParsers

/-- **A script and its tokens agree.** -/
theorem agree_slices {t : Text} {tokens : List Token} (h : Token.scan t = .ok tokens) :
    (slices t).Agree .tokens tokens := by
  constructor <;> rintro first rest ⟨before, after, rfl⟩
  · exact Statement.goesByTokens_parser.parseSpan_eq h
  · exact Expr.goesByTokens_parser.parseSpan_eq h

theorem Agree.of_isInfix {a b : SpanParsers} {tokens run : List Token} (h : a.Agree b tokens)
    (hrun : run <:+: tokens) : a.Agree b run where
  statement first rest hspan := h.statement first rest (hspan.trans hrun)
  expression first rest hspan := h.expression first rest (hspan.trans hrun)

end SpanParsers

/-- A form takes the same pieces. -/
theorem StatementForm.pieces_congr {a b : SpanParsers} (form : StatementForm) (last : Position)
    (symbols : List Text) {tokens : List Token} (h : a.Agree b tokens) :
    form.pieces a last symbols tokens = form.pieces b last symbols tokens := by
  induction hn : tokens.length using Nat.strongRecOn generalizing symbols tokens with
  | _ n ih =>
  subst hn
  cases hnext : form.next symbols (lookAhead tokens) with
  | none => rw [pieces_of_none last hnext, pieces_of_none last hnext]
  | some expected =>
    by_cases hexpr : expected = .expr
    · subst hexpr
      rw [pieces_of_expr last hnext, pieces_of_expr last hnext]
      cases tokens with
      | nil => rfl
      | cons t rest =>
        rcases hspan : Token.expressionSpan 0 (t :: rest) with ⟨_ | ⟨first, inside⟩, behind⟩
        · rfl
        · have happend : first :: inside ++ behind = t :: rest := by
            simpa only [hspan] using Token.expressionSpan_append 0 (t :: rest)
          have hinside : first :: inside <:+: t :: rest := ⟨[], behind, happend⟩
          have hbehind : behind <:+ t :: rest := ⟨first :: inside, happend⟩
          have hshorter : behind.length < (t :: rest).length := by
            rw [← happend, List.length_append, List.length_cons]
            omega
          dsimp only
          rw [h.expression first inside hinside,
            ih behind.length hshorter _ (h.of_isInfix hbehind.isInfix) rfl]
    · rw [pieces_of_single last hnext hexpr, pieces_of_single last hnext hexpr]
      cases tokens with
      | nil => rfl
      | cons t rest =>
        dsimp only
        rw [ih rest.length (Nat.lt_succ_self _) _ (h.of_isInfix (List.suffix_cons t rest).isInfix)
          rfl]

namespace Statement

theorem parseOne_congr {a b : SpanParsers} (forms : List StatementForm) {first : Token}
    {rest : List Token} (h : a.Agree b (first :: rest)) :
    parseOne a forms first rest = parseOne b forms first rest := by
  rw [parseOne, parseOne]
  split
  · rw [StatementForm.pieces_congr _ _ _ (h.of_isInfix (List.suffix_cons first rest).isInfix)]
  · exact h.statement first rest List.infix_rfl

/-- **A statement of a script** is parsed as its tokens are. -/
theorem parseOne_slices (forms : List StatementForm) {t : Text} {tokens : List Token}
    {first : Token} {rest : List Token} (hscan : Token.scan t = .ok tokens)
    (hrun : first :: rest ∈ Token.statements tokens) :
    parseOne (.slices t) forms first rest = parseOne .tokens forms first rest :=
  parseOne_congr forms ((SpanParsers.agree_slices hscan).of_isInfix
    (Token.isInfix_of_mem_runs (List.mem_filter.mp hrun).1))

/-- **The statements of a script** are those that its tokens make. -/
theorem parse_eq (forms : List StatementForm) (t : Text) : parse forms t = (do
    let tokens ← Token.scan t
    parseRuns .tokens forms (Token.statements tokens)) := by
  rw [parse]
  cases hscan : Token.scan t with
  | error e => rfl
  | ok tokens =>
    change parseRuns (.slices t) forms _ = parseRuns .tokens forms _
    have hruns : ∀ runs : List (List Token), (∀ run ∈ runs, run ∈ Token.statements tokens) →
        parseRuns (.slices t) forms runs = parseRuns .tokens forms runs := by
      intro runs hruns
      induction runs with
      | nil => rfl
      | cons run runs ih =>
        rw [List.forall_mem_cons] at hruns
        cases run with
        | nil => exact ih hruns.2
        | cons first rest =>
          rw [parseRuns, parseRuns, parseOne_slices forms hscan hruns.1, ih hruns.2]
    exact hruns _ fun _ hrun => hrun

/-- A place in a slice is told as the place in the script. -/
example : failure? (parse [] "1; let true ==2") =
    some (.parse (.unexpectedToken "=") (some ⟨1, 14⟩)) := by decide +kernel

end Statement

/-! ### Scripts of one statement -/

/-- Tokens without a semicolon outside of brackets are one statement. -/
theorem Token.statements_eq_singleton {first : Token} {rest : List Token}
    (h : ∀ front t back, first :: rest = front ++ t :: back → t.kind = .semicolon →
      depthBehind 0 front ≠ 0) : statements (first :: rest) = [first :: rest] := by
  rw [statements, runs_eq_singleton h]
  rfl

/-- A script of one statement is parsed as that. -/
theorem Engine.parse_eq_map (engine : Engine) {t : Text} {tokens : List Token} {first : Token}
    {rest : List Token} (hscan : Token.scan t = .ok tokens)
    (hone : Token.statements tokens = [first :: rest]) :
    engine.parse t = (Statement.parseOne .tokens engine.forms first rest).map fun st => [st] := by
  rw [parse, Statement.parse_eq, hscan]
  change Statement.parseRuns .tokens engine.forms (Token.statements tokens) = _
  rw [hone, Statement.parseRuns]
  cases Statement.parseOne .tokens engine.forms first rest <;> rfl

/-- A script with a derivation as one statement is parsed as what that means. -/
theorem Engine.parse_of_derivation (engine : Engine) {t : Text} {first : Token}
    {rest : List Token} (hscan : Token.scan t = .ok (first :: rest))
    (hone : ∀ front s back, first :: rest = front ++ s :: back → s.kind = .semicolon →
      Token.depthBehind 0 front ≠ 0)
    (hform : Statement.form? engine.forms first = none) {d : Grammar.Statement}
    (hd : d.tokens = first :: rest) : engine.parse t = .ok [d.statement] := by
  rw [engine.parse_eq_map hscan (Token.statements_eq_singleton hone),
    (Statement.parseOne_eq_ok_iff hform).mpr ⟨d, hd, rfl⟩]
  rfl

/-- **A script of one statement** is accepted if the grammar derives it, and makes what the
derivation means; and there is one derivation at most. The statement must not begin with a
keyword that has a form of its own. -/
theorem Engine.parse_eq_derivation (engine : Engine) {t : Text} {first : Token}
    {rest : List Token} (hscan : Token.scan t = .ok (first :: rest))
    (hone : ∀ front s back, first :: rest = front ++ s :: back → s.kind = .semicolon →
      Token.depthBehind 0 front ≠ 0)
    (hform : Statement.form? engine.forms first = none) :
    (∀ statements, engine.parse t = .ok statements ↔
      ∃ d : Grammar.Statement, d.tokens = first :: rest ∧ statements = [d.statement]) ∧
    ∀ d d' : Grammar.Statement, d.tokens = first :: rest → d'.tokens = first :: rest → d = d' := by
  have hparse := engine.parse_eq_map hscan (Token.statements_eq_singleton hone)
  refine ⟨fun statements => ?_, fun d d' hd hd' => ?_⟩
  case refine_2 => exact Grammar.Statement.eq_of_tokens (hd.trans hd'.symm)
  rw [hparse]
  constructor
  · intro h
    cases hst : Statement.parseOne .tokens engine.forms first rest with
    | error e => rw [hst] at h; cases h
    | ok st =>
      rw [hst] at h
      cases h
      obtain ⟨d, hd, rfl⟩ := (Statement.parseOne_eq_ok_iff hform).mp hst
      exact ⟨d, hd, rfl⟩
  · rintro ⟨d, hd, rfl⟩
    rw [(Statement.parseOne_eq_ok_iff hform).mpr ⟨d, hd, rfl⟩]
    rfl

/-- Minus binds tighter in front of an operand than between two, and a point tighter still. -/
theorem Engine.parse_eq_derivation_minus :
    (Engine.standard {}).parse "a - -b.c" =
      .ok [.expression (.sub (.var "a") (.neg (.member (.var "b") "c")))] := by
  let name (text : Text) (offset : Nat) : Token := ⟨.name, text, ⟨1, offset + 1⟩, offset⟩
  let minus (offset : Nat) : Token := ⟨.minus, "-", ⟨1, offset + 1⟩, offset⟩
  let dot : Token := ⟨.dot, ".", ⟨1, 7⟩, 6⟩
  have hscan : Token.scan "a - -b.c" =
      .ok [name "a" 0, minus 2, minus 4, name "b" 5, dot, name "c" 7] :=
    eq_ok_of_toOption (by decide +kernel)
  have hone : ∀ s ∈ [name "a" 0, minus 2, minus 4, name "b" 5, dot, name "c" 7],
      s.kind ≠ .semicolon := by decide
  let left : Grammar.Sum := .single (.chain (.atom (.name ⟨name "a" 0, by decide⟩)))
  let right : Grammar.Chain :=
    .member (.atom (.name ⟨name "b" 5, by decide⟩)) ⟨dot, by decide⟩ ⟨name "c" 7, by decide⟩
  let difference : Grammar.Expression :=
    .sum (.more left ⟨minus 2, by decide⟩ (.negation ⟨minus 4, by decide⟩ (.chain right)))
  have hparse := Engine.parse_eq_derivation (.standard {}) hscan
    (fun front s back h hs => absurd hs (hone s (by simp [h]))) rfl
  exact (hparse.1 _).mpr ⟨.expression difference (by decide), rfl, rfl⟩

end TypedMemory
