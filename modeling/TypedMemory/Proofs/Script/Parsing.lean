import TypedMemory.Proofs.Effect
import TypedMemory.Proofs.Script.Brackets
import TypedMemory.Proofs.Script.Derivation
import TypedMemory.Script.Parse

/-!
# The parser is the grammar

The parser of expressions accepts what the grammar derives, and nothing else, and makes the
tree of the derivation (`TypedMemory.Expr.parse_eq_ok_iff`); and no expression has two
derivations (`TypedMemory.Grammar.Expression.eq_of_tokens`).

That what it accepts has a derivation is the machine of
`TypedMemory.Proofs.Script.Derivation`, which keeps one. That it accepts what has a derivation,
and that there is just one, is a single induction on derivations: **a derivation drives the
machine to itself** (`TypedMemory.Grammar.Expression.exists_run`). For each level of the grammar
it says what waits behind the last token of the level. A chain is complete there; a sum still
has its last operand behind its signs open, since the next token may belong to that; and an
expression has its last sum open. In a list, that an array and a call differ does not matter as
long as a comma does the same in both.

Statements follow (`TypedMemory.Statement.parseOne_eq_ok_iff`): behind the first tokens of a
binding, and anywhere in an expression, their parser is that of expressions.
-/

namespace TypedMemory

namespace Grammar

open TypedMemory.Expr (State)

theorem Terminal.kind_eq {kind : TokenKind} (t : Terminal [kind]) : t.1.kind = kind :=
  List.mem_singleton.mp t.2

/-- What holds of every token of a kind holds of every terminal of it. -/
@[elab_as_elim] theorem Terminal.rec_kind {kind : TokenKind} {motive : Terminal [kind] → Prop}
    (token : ∀ text position offset, motive ⟨⟨kind, text, position, offset⟩, by simp⟩)
    (t : Terminal [kind]) : motive t := by
  obtain ⟨⟨kind', text, position, offset⟩, h⟩ := t
  obtain rfl : kind' = kind := List.mem_singleton.mp h
  exact token text position offset

namespace Partial

@[simp] theorem run_nil (s : Partial) : s.run [] = some s := rfl

@[simp] theorem run_cons (s : Partial) (t : Token) (rest : List Token) :
    s.run (t :: rest) = (s.step t).bind fun s => s.run rest := rfl

variable {outer : List (Opening × Pending)} {p q : Pending} {c : Chain}

/-! ### The moves on terminals -/

@[simp] theorem step_name (n : Name) :
    step ⟨outer, p, .operand⟩ n.1 = some ⟨outer, p, .behind (.atom (.name n))⟩ := by
  obtain ⟨⟨kind, text, position, offset⟩, h⟩ := n
  obtain rfl | rfl : kind = .name ∨ kind = .letWord := by simpa using h
  all_goals rfl

@[simp] theorem step_literal
    (t : Terminal [.hexNumber, .int, .decimal, .string, .trueWord, .falseWord]) :
    step ⟨outer, p, .operand⟩ t.1 = some ⟨outer, p, .behind (.atom (.literal t))⟩ := by
  obtain ⟨⟨kind, text, position, offset⟩, h⟩ := t
  obtain rfl | rfl | rfl | rfl | rfl | rfl : kind = .hexNumber ∨ kind = .int ∨ kind = .decimal ∨
    kind = .string ∨ kind = .trueWord ∨ kind = .falseWord := by simpa using h
  all_goals rfl

@[simp] theorem step_minus (sign : Terminal [.minus]) :
    step ⟨outer, p, .operand⟩ sign.1 =
      some ⟨outer, { p with signs := sign :: p.signs }, .operand⟩ := by
  cases sign using Terminal.rec_kind; rfl

@[simp] theorem step_openGroup (opening : Terminal [.leftParen]) :
    step ⟨outer, p, .operand⟩ opening.1 = some ⟨(.group opening, p) :: outer, {}, .operand⟩ := by
  cases opening using Terminal.rec_kind; rfl

@[simp] theorem step_openArray (opening : Terminal [.leftBracket]) :
    step ⟨outer, p, .operand⟩ opening.1 =
      some ⟨(.array opening none, p) :: outer, {}, .operand⟩ := by
  cases opening using Terminal.rec_kind; rfl

@[simp] theorem step_openRecord (opening : Terminal [.hashBrace]) :
    step ⟨outer, p, .operand⟩ opening.1 = some ⟨outer, p, .entryName opening none⟩ := by
  cases opening using Terminal.rec_kind; rfl

@[simp] theorem step_closeNoArguments (caller : Caller) (opening : Terminal [.leftParen])
    (closing : Terminal [.rightParen]) :
    step ⟨(.arguments caller opening none, p) :: outer, {}, .operand⟩ closing.1 =
      some ⟨outer, p, .behind (caller.chain opening .absent closing)⟩ := by
  cases closing using Terminal.rec_kind; rfl

@[simp] theorem step_closeNoItems (opening : Terminal [.leftBracket])
    (closing : Terminal [.rightBracket]) :
    step ⟨(.array opening none, p) :: outer, {}, .operand⟩ closing.1 =
      some ⟨outer, p, .behind (.atom (.array opening .absent closing))⟩ := by
  cases closing using Terminal.rec_kind; rfl

@[simp] theorem step_dot (dot : Terminal [.dot]) :
    step ⟨outer, p, .behind c⟩ dot.1 = some ⟨outer, p, .member c dot⟩ := by
  cases dot using Terminal.rec_kind; rfl

@[simp] theorem step_member (dot : Terminal [.dot]) (name : Word) :
    step ⟨outer, p, .member c dot⟩ name.1 = some ⟨outer, p, .behind (.member c dot name)⟩ :=
  dif_pos name.2

theorem step_openArguments {caller : Caller} (h : c.caller? = some caller)
    (opening : Terminal [.leftParen]) :
    step ⟨outer, p, .behind c⟩ opening.1 =
      some ⟨(.arguments caller opening none, p) :: outer, {}, .operand⟩ := by
  cases opening using Terminal.rec_kind
  simp [step, stepBehind, h]

@[simp] theorem step_openKey (opening : Terminal [.leftBracket]) :
    step ⟨outer, p, .behind c⟩ opening.1 = some ⟨(.key c opening, p) :: outer, {}, .operand⟩ := by
  cases opening using Terminal.rec_kind; rfl

@[simp] theorem step_sign (sign : Terminal [.plus, .minus]) :
    step ⟨outer, p, .behind c⟩ sign.1 =
      some ⟨outer, ⟨p.side, some (p.sum c, sign), []⟩, .operand⟩ := by
  obtain ⟨⟨kind, text, position, offset⟩, h⟩ := sign
  obtain rfl | rfl : kind = .plus ∨ kind = .minus := by simpa using h
  all_goals rfl

@[simp] theorem step_comparison (h : p.side = none) (sign : Terminal [.equal, .notEqual]) :
    step ⟨outer, p, .behind c⟩ sign.1 =
      some ⟨outer, ⟨some (p.sum c, sign), none, []⟩, .operand⟩ := by
  obtain ⟨side, term, signs⟩ := p
  obtain rfl : side = none := h
  obtain ⟨⟨kind, text, position, offset⟩, h⟩ := sign
  obtain rfl | rfl : kind = .equal ∨ kind = .notEqual := by simpa using h
  all_goals rfl

@[simp] theorem step_closeGroup (opening : Terminal [.leftParen])
    (closing : Terminal [.rightParen]) :
    step ⟨(.group opening, q) :: outer, p, .behind c⟩ closing.1 =
      some ⟨outer, q, .behind (.atom (.group opening (p.expression c) closing))⟩ := by
  cases closing using Terminal.rec_kind; rfl

@[simp] theorem step_closeArguments (caller : Caller) (opening : Terminal [.leftParen])
    (before : Option (Arguments × Terminal [.comma])) (closing : Terminal [.rightParen]) :
    step ⟨(.arguments caller opening before, q) :: outer, p, .behind c⟩ closing.1 =
      some ⟨outer, q, .behind
        (caller.chain opening (.present (.add (p.expression c) before)) closing)⟩ := by
  cases closing using Terminal.rec_kind; rfl

@[simp] theorem step_closeArray (opening : Terminal [.leftBracket])
    (before : Option (Arguments × Terminal [.comma])) (closing : Terminal [.rightBracket]) :
    step ⟨(.array opening before, q) :: outer, p, .behind c⟩ closing.1 =
      some ⟨outer, q, .behind
        (.atom (.array opening (.present (.add (p.expression c) before)) closing))⟩ := by
  cases closing using Terminal.rec_kind; rfl

@[simp] theorem step_closeKey (target : Chain) (opening : Terminal [.leftBracket])
    (closing : Terminal [.rightBracket]) :
    step ⟨(.key target opening, q) :: outer, p, .behind c⟩ closing.1 =
      some ⟨outer, q, .behind (.index target opening (p.expression c) closing)⟩ := by
  cases closing using Terminal.rec_kind; rfl

@[simp] theorem step_closeRecord (opening : Terminal [.hashBrace])
    (before : Option (Entries × Terminal [.comma])) (name : Word) (colon : Terminal [.colon])
    (closing : Terminal [.rightBrace]) :
    step ⟨(.entry opening before name colon, q) :: outer, p, .behind c⟩ closing.1 =
      some ⟨outer, q, .behind (.atom (.record opening
        (.present (.add ⟨name, colon, p.expression c⟩ before)) closing))⟩ := by
  cases closing using Terminal.rec_kind; rfl

@[simp] theorem step_closeNoEntries (opening : Terminal [.hashBrace])
    (closing : Terminal [.rightBrace]) :
    step ⟨outer, p, .entryName opening none⟩ closing.1 =
      some ⟨outer, p, .behind (.atom (.record opening .absent closing))⟩ := by
  cases closing using Terminal.rec_kind; rfl

@[simp] theorem step_entryName (opening : Terminal [.hashBrace])
    (before : Option (Entries × Terminal [.comma])) (name : Word) :
    step ⟨outer, p, .entryName opening before⟩ name.1 =
      some ⟨outer, p, .colon opening before name⟩ :=
  dif_pos name.2

@[simp] theorem step_colon (opening : Terminal [.hashBrace])
    (before : Option (Entries × Terminal [.comma])) (name : Word) (colon : Terminal [.colon]) :
    step ⟨outer, p, .colon opening before name⟩ colon.1 =
      some ⟨(.entry opening before name colon, p) :: outer, {}, .operand⟩ :=
  dif_pos colon.2

@[simp] theorem step_commaArray (opening : Terminal [.leftBracket])
    (before : Option (Arguments × Terminal [.comma])) (comma : Terminal [.comma]) :
    step ⟨(.array opening before, q) :: outer, p, .behind c⟩ comma.1 =
      some ⟨(.array opening (some (.add (p.expression c) before, comma)), q) :: outer, {},
        .operand⟩ := by
  cases comma using Terminal.rec_kind; rfl

@[simp] theorem step_commaArguments (caller : Caller) (opening : Terminal [.leftParen])
    (before : Option (Arguments × Terminal [.comma])) (comma : Terminal [.comma]) :
    step ⟨(.arguments caller opening before, q) :: outer, p, .behind c⟩ comma.1 =
      some ⟨(.arguments caller opening (some (.add (p.expression c) before, comma)), q) :: outer,
        {}, .operand⟩ := by
  cases comma using Terminal.rec_kind; rfl

@[simp] theorem step_commaEntry (opening : Terminal [.hashBrace])
    (before : Option (Entries × Terminal [.comma])) (name : Word) (colon : Terminal [.colon])
    (comma : Terminal [.comma]) :
    step ⟨(.entry opening before name colon, q) :: outer, p, .behind c⟩ comma.1 =
      some ⟨outer, q, .entryName opening
        (some (.add ⟨name, colon, p.expression c⟩ before, comma))⟩ := by
  cases comma using Terminal.rec_kind; rfl

end Partial

/-! ### A derivation drives the machine -/

open Partial

mutual

/-- An expression leaves what completes to it waiting. -/
theorem Expression.exists_run (e : Expression) (outer : List (Opening × Pending)) :
    ∃ p c, p.expression c = e ∧ ∀ rest,
      run ⟨outer, {}, .operand⟩ (e.tokens ++ rest) = run ⟨outer, p, .behind c⟩ rest := by
  cases e with
  | sum s =>
    obtain ⟨term, signs, c, hs, hrun⟩ := s.exists_run outer none
    exact ⟨⟨none, term, signs⟩, c, congrArg Expression.sum hs, hrun⟩
  | comparison left sign right =>
    obtain ⟨term, signs, c, hl, hleft⟩ := left.exists_run outer none
    obtain ⟨term', signs', c', hr, hright⟩ := right.exists_run outer (some (left, sign))
    refine ⟨⟨some (left, sign), term', signs'⟩, c',
      congrArg (Expression.comparison left sign) hr, fun rest => ?_⟩
    simp [hleft, hright, hl]

/-- A sum leaves what completes to it waiting. -/
theorem Sum.exists_run (s : Sum) (outer : List (Opening × Pending))
    (side : Option (Sum × Terminal [.equal, .notEqual])) :
    ∃ term signs c, Pending.sum ⟨side, term, signs⟩ c = s ∧ ∀ rest,
      run ⟨outer, ⟨side, none, []⟩, .operand⟩ (s.tokens ++ rest) =
        run ⟨outer, ⟨side, term, signs⟩, .behind c⟩ rest := by
  cases s with
  | single u =>
    obtain ⟨signs, c, hu, hrun⟩ := u.exists_run outer ⟨side, none, []⟩
    exact ⟨none, signs, c, congrArg Sum.single hu, hrun⟩
  | more left sign right =>
    obtain ⟨term, signs, c, hl, hleft⟩ := left.exists_run outer side
    obtain ⟨signs', c', hu, hright⟩ := right.exists_run outer ⟨side, some (left, sign), []⟩
    refine ⟨some (left, sign), signs', c', congrArg (Sum.more left sign) hu, fun rest => ?_⟩
    simp [hleft, hright, hl]

/-- An operand with its signs leaves the signs waiting. -/
theorem Unary.exists_run (u : Unary) (outer : List (Opening × Pending)) (p : Pending) :
    ∃ signs c, Unary.signed (.chain c) signs = u.signed p.signs ∧ ∀ rest,
      run ⟨outer, p, .operand⟩ (u.tokens ++ rest) =
        run ⟨outer, { p with signs := signs }, .behind c⟩ rest := by
  cases u with
  | chain c => exact ⟨p.signs, c, rfl, c.run_eq outer p⟩
  | negation sign operand =>
    obtain ⟨signs, c, hu, hrun⟩ := operand.exists_run outer { p with signs := sign :: p.signs }
    refine ⟨signs, c, hu, fun rest => ?_⟩
    simp [hrun]

/-- What signs stand in front of is complete behind its last token. -/
theorem Chain.run_eq (c : Chain) (outer : List (Opening × Pending)) (p : Pending)
    (rest : List Token) :
    run ⟨outer, p, .operand⟩ (c.tokens ++ rest) = run ⟨outer, p, .behind c⟩ rest := by
  cases c with
  | atom a => exact a.run_eq outer p rest
  | member target dot name => simp [target.run_eq outer p]
  | methodCall target dot name opening arguments closing =>
    have hcaller : (Chain.member target dot name).caller? = some (.method target dot name) := rfl
    simp [target.run_eq outer p, step_openArguments hcaller,
      arguments.run_call, Caller.chain]
  | index target opening key closing =>
    obtain ⟨q, c, hk, hkey⟩ := key.exists_run ((.key target opening, p) :: outer)
    simp [target.run_eq outer p, hkey, hk]

/-- An atom is complete behind its last token. -/
theorem Atom.run_eq (a : Atom) (outer : List (Opening × Pending)) (p : Pending)
    (rest : List Token) :
    run ⟨outer, p, .operand⟩ (a.tokens ++ rest) = run ⟨outer, p, .behind (.atom a)⟩ rest := by
  cases a with
  | name n => simp
  | literal t => simp
  | call name opening arguments closing =>
    have hcaller : (Chain.atom (.name name)).caller? = some (.function name) := rfl
    simp [step_openArguments hcaller, arguments.run_call, Caller.chain]
  | record opening entries closing =>
    cases entries with
    | absent => simp
    | present entries =>
      obtain ⟨before, name, colon, q, c, he, hrun⟩ := entries.exists_run outer p opening
      simp [hrun, he]
  | array opening items closing =>
    cases items with
    | absent => simp
    | present items =>
      obtain ⟨before, q, c, hi, hrun⟩ :=
        items.exists_run outer p (.array opening) (step_commaArray opening)
      simp [hrun, hi]
  | group opening e closing =>
    obtain ⟨q, c, he, hrun⟩ := e.exists_run ((.group opening, p) :: outer)
    simp [hrun, he]

/-- Arguments in their parentheses complete the call. -/
theorem OptionalArguments.run_call (a : OptionalArguments) (outer : List (Opening × Pending))
    (p : Pending) (caller : Caller) (opening : Terminal [.leftParen])
    (closing : Terminal [.rightParen]) (rest : List Token) :
    run ⟨(.arguments caller opening none, p) :: outer, {}, .operand⟩
        (a.tokens ++ closing.1 :: rest) =
      run ⟨outer, p, .behind (caller.chain opening a closing)⟩ rest := by
  cases a with
  | absent => simp
  | present a =>
    obtain ⟨before, q, c, ha, hrun⟩ :=
      a.exists_run outer p (.arguments caller opening) (step_commaArguments caller opening)
    simp [hrun, ha]

/-- Arguments leave the last of them waiting, in the brackets of an array as in those of a
call: it matters only what a comma does there. -/
theorem Arguments.exists_run (a : Arguments) (outer : List (Opening × Pending)) (p : Pending)
    (list : Option (Arguments × Terminal [.comma]) → Opening)
    (hcomma : ∀ {outer p q c} before (comma : Terminal [.comma]),
      step ⟨(list before, q) :: outer, p, .behind c⟩ comma.1 =
        some ⟨(list (some (.add (p.expression c) before, comma)), q) :: outer, {}, .operand⟩) :
    ∃ before q c, Arguments.add (q.expression c) before = a ∧ ∀ rest,
      run ⟨(list none, p) :: outer, {}, .operand⟩ (a.tokens ++ rest) =
        run ⟨(list before, p) :: outer, q, .behind c⟩ rest := by
  cases a with
  | single e =>
    obtain ⟨q, c, he, hrun⟩ := e.exists_run ((list none, p) :: outer)
    exact ⟨none, q, c, congrArg Arguments.single he, hrun⟩
  | more before comma e =>
    obtain ⟨front, q, c, hb, hbefore⟩ := before.exists_run outer p list hcomma
    obtain ⟨q', c', he, hrun⟩ := e.exists_run ((list (some (before, comma)), p) :: outer)
    refine ⟨some (before, comma), q', c', congrArg (Arguments.more before comma) he,
      fun rest => ?_⟩
    simp [hbefore, hcomma, hrun, hb]

/-- Entries leave the last of them waiting. -/
theorem Entries.exists_run (entries : Entries) (outer : List (Opening × Pending)) (p : Pending)
    (opening : Terminal [.hashBrace]) :
    ∃ before name colon q c,
      Entries.add ⟨name, colon, q.expression c⟩ before = entries ∧ ∀ rest,
        run ⟨outer, p, .entryName opening none⟩ (entries.tokens ++ rest) =
          run ⟨(.entry opening before name colon, p) :: outer, q, .behind c⟩ rest := by
  cases entries with
  | single e =>
    obtain ⟨name, colon, q, c, he, hrun⟩ := e.exists_run outer p opening none
    exact ⟨none, name, colon, q, c, congrArg Entries.single he, hrun⟩
  | more before comma e =>
    obtain ⟨front, name, colon, q, c, hb, hbefore⟩ := before.exists_run outer p opening
    obtain ⟨name', colon', q', c', he, hrun⟩ :=
      e.exists_run outer p opening (some (before, comma))
    refine ⟨some (before, comma), name', colon', q', c',
      congrArg (Entries.more before comma) he, fun rest => ?_⟩
    simp [hbefore, hrun, hb]

/-- An entry leaves its expression waiting. -/
theorem NamedExpression.exists_run (e : NamedExpression) (outer : List (Opening × Pending))
    (p : Pending) (opening : Terminal [.hashBrace])
    (before : Option (Entries × Terminal [.comma])) :
    ∃ name colon q c, NamedExpression.mk name colon (q.expression c) = e ∧ ∀ rest,
      run ⟨outer, p, .entryName opening before⟩ (e.tokens ++ rest) =
        run ⟨(.entry opening before name colon, p) :: outer, q, .behind c⟩ rest := by
  cases e with
  | mk name colon value =>
    obtain ⟨q, c, hv, hrun⟩ :=
      value.exists_run ((.entry opening before name colon, p) :: outer)
    refine ⟨name, colon, q, c, congrArg (NamedExpression.mk name colon) hv, fun rest => ?_⟩
    simp [hrun]

end

namespace Partial

/-- Forgetting goes along with runs. -/
theorem foldlM_state (s : Partial) (tokens : List Token) :
    tokens.foldlM State.step s.state = (s.run tokens).map state := by
  induction tokens generalizing s with
  | nil => rfl
  | cons t rest ih =>
    rw [List.foldlM_cons, state_step, run_cons]
    cases s.step t with
    | none => rfl
    | some s' => exact ih s'

/-- What has been put together derives the tokens that were taken. -/
theorem tokens_run {s s' : Partial} {tokens : List Token} (h : s.run tokens = some s') :
    s'.tokens = s.tokens ++ tokens := by
  induction tokens generalizing s with
  | nil =>
    cases h
    exact (List.append_nil _).symm
  | cons t rest ih =>
    obtain ⟨s₁, hstep, hrest⟩ := Option.bind_eq_some_iff.mp h
    rw [ih hrest, tokens_step hstep, List.append_assoc, List.singleton_append]

end Partial

/-! ### What the parser accepts -/

/-- A derivation is what comes out of a run on its tokens. -/
theorem Expression.run_result? (e : Expression) :
    ((⟨[], {}, .operand⟩ : Partial).run e.tokens).bind Partial.result? = some e := by
  obtain ⟨p, c, he, hrun⟩ := e.exists_run []
  have hend := hrun []
  rw [List.append_nil] at hend
  rw [hend, Partial.run_nil, Option.bind_some]
  exact congrArg some he

/-- **An expression has no second derivation.** -/
theorem Expression.eq_of_tokens {e e' : Expression} (h : e.tokens = e'.tokens) : e = e' :=
  Option.some.inj (by rw [← e.run_result?, ← e'.run_result?, h])

end Grammar

/-- A parser accepts where it has a move on every token and may end there. -/
theorem Parser.run_eq_ok_iff {σ ρ : Type} {p : Parser σ ρ} {s : σ} {last : Position}
    {tokens : List Token} {v : ρ} :
    p.run s last tokens = .ok v ↔ (tokens.foldlM p.step s).bind p.result? = some v := by
  induction tokens generalizing s last with
  | nil =>
    simp only [run, finish, List.foldlM_nil, Option.pure_def, Option.bind_some]
    cases p.result? s with
    | none => simp [Error.fail]
    | some v' => simp
  | cons t rest ih =>
    simp only [run, List.foldlM_cons]
    cases p.step s t with
    | none => simp [unexpected, Error.fail]
    | some s' => exact ih

/-- A refusal is a parse error, and has a place. -/
theorem Parser.run_fails {σ ρ : Type} {p : Parser σ ρ} {s : σ} {last : Position}
    {tokens : List Token} {e : Error} (h : p.run s last tokens = .error e) :
    ∃ cause place, e = .parse cause (some place) := by
  induction tokens generalizing s last with
  | nil =>
    simp only [run, finish] at h
    split at h
    · cases h
    · exact ⟨_, _, (Except.error.inj h).symm⟩
  | cons t rest ih =>
    simp only [run] at h
    split at h
    · exact ih h
    · exact ⟨_, _, (Except.error.inj h).symm⟩

namespace Expr

open Grammar (Partial)

/-- **The parser of expressions is the grammar**: it accepts what has a derivation, and makes
its tree. -/
theorem parse_eq_ok_iff {last : Position} {tokens : List Token} {v : Expr} :
    parse last tokens = .ok v ↔ ∃ e : Grammar.Expression, e.tokens = tokens ∧ e.expr = v := by
  have hinitial : State.initial = (⟨[], {}, .operand⟩ : Partial).state := rfl
  refine Parser.run_eq_ok_iff.trans ?_
  change (tokens.foldlM State.step State.initial).bind State.result? = some v ↔ _
  rw [hinitial, Partial.foldlM_state]
  constructor
  · intro h
    obtain ⟨s, hrun, hs⟩ := Option.bind_eq_some_iff.mp h
    obtain ⟨s, hs', rfl⟩ := Option.map_eq_some_iff.mp hrun
    rw [Partial.state_result?] at hs
    obtain ⟨e, he, hv⟩ := Option.map_eq_some_iff.mp hs
    refine ⟨e, ?_, hv⟩
    rw [Partial.tokens_of_result? he, Partial.tokens_run hs']
    rfl
  · rintro ⟨e, rfl, rfl⟩
    obtain ⟨s, hrun, hs⟩ := Option.bind_eq_some_iff.mp e.run_result?
    rw [hrun, Option.map_some, Option.bind_some, Partial.state_result?, hs, Option.map_some]

/-- A refused expression is a parse error, and has a place. -/
theorem parse_fails {last : Position} {tokens : List Token} {e : Error}
    (h : parse last tokens = .error e) : ∃ cause place, e = .parse cause (some place) :=
  Parser.run_fails h

end Expr

/-- An expression has tokens. -/
theorem Grammar.Expression.tokens_ne_nil (e : Grammar.Expression) : e.tokens ≠ [] := by
  intro h
  have hparse : Expr.parse ⟨1, 1⟩ [] = .ok e.expr := Expr.parse_eq_ok_iff.mpr ⟨e, h, rfl⟩
  cases hparse

/-! ### Statements -/

/-- What reads as a name where only a name can stand. -/
theorem TokenKind.isWord_iff {kind : TokenKind} :
    kind.isWord = true ↔ kind ∈ [.name, .letWord, .trueWord, .falseWord] := by
  cases kind <;> decide

/-- **A statement has no second derivation.** -/
theorem Grammar.Statement.eq_of_tokens {d d' : Grammar.Statement} (h : d.tokens = d'.tokens) :
    d = d' := by
  cases d with
  | binding word name sign value =>
    cases d' with
    | binding word' name' sign' value' =>
      obtain ⟨hword, hname, hsign, hvalue⟩ : word.1 = word'.1 ∧ name.1 = name'.1 ∧
        sign.1 = sign'.1 ∧ value.tokens = value'.tokens := by simpa using h
      rw [Subtype.ext hword, Subtype.ext hname, Subtype.ext hsign,
        Expression.eq_of_tokens hvalue]
    | expression value' h' =>
      have hword : word.1.kind = .letWord := by simpa using word.2
      have hhead : word.1 ∈ value'.tokens.head? := by simp [← show _ = value'.tokens from h]
      exact absurd hword (h' word.1 hhead)
  | expression value hvalue =>
    cases d' with
    | binding word name sign value' =>
      have hword : word.1.kind = .letWord := by simpa using word.2
      have hhead : word.1 ∈ value.tokens.head? := by simp [show value.tokens = _ from h]
      exact absurd hword (hvalue word.1 hhead)
    | expression value' h' => simp [Expression.eq_of_tokens h]

namespace Statement

/-- An expression in a statement is parsed as the grammar has it. -/
theorem foldlM_value_eq_some_iff {name? : Option Text} {tokens : List Token} {st : Statement} :
    (tokens.foldlM State.step (.value name? .initial)).bind State.result? = some st ↔
      ∃ value : Grammar.Expression, value.tokens = tokens ∧
        st = name?.elim (.expression value.expr) (.binding · value.expr) := by
  have hfold (s : Expr.State) : tokens.foldlM State.step (.value name? s) =
      (tokens.foldlM Expr.State.step s).map (.value name?) := by
    induction tokens generalizing s with
    | nil => rfl
    | cons t rest ih =>
      rw [List.foldlM_cons, List.foldlM_cons, State.step]
      cases s.step t with
      | none => rfl
      | some s' => exact ih s'
  have hresult (s : Expr.State) : State.result? (.value name? s) =
      s.result?.map fun v => name?.elim (.expression v) (.binding · v) := by
    cases name? <;> rfl
  have hexpr (v : Expr) : (tokens.foldlM Expr.State.step .initial).bind Expr.State.result? =
      some v ↔ ∃ value : Grammar.Expression, value.tokens = tokens ∧ value.expr = v :=
    Parser.run_eq_ok_iff.symm.trans (@Expr.parse_eq_ok_iff .start tokens v)
  constructor
  · intro h
    obtain ⟨s, hs, hst⟩ := Option.bind_eq_some_iff.mp h
    rw [hfold] at hs
    obtain ⟨s', hs', rfl⟩ := Option.map_eq_some_iff.mp hs
    rw [hresult] at hst
    obtain ⟨v, hv, rfl⟩ := Option.map_eq_some_iff.mp hst
    obtain ⟨value, htokens, rfl⟩ := (hexpr v).mp (Option.bind_eq_some_iff.mpr ⟨s', hs', hv⟩)
    exact ⟨value, htokens, rfl⟩
  · rintro ⟨value, htokens, rfl⟩
    obtain ⟨s, hs, hv⟩ := Option.bind_eq_some_iff.mp ((hexpr _).mpr ⟨value, htokens, rfl⟩)
    rw [hfold, hs, Option.map_some, Option.bind_some, hresult, hv]
    rfl

/-- A binding is parsed as the grammar has it. -/
theorem foldlM_word_eq_some_iff {rest : List Token} {st : Statement} :
    (rest.foldlM State.step .word).bind State.result? = some st ↔
      ∃ (name : Grammar.Word) (sign : Grammar.Terminal [.assign]) (value : Grammar.Expression),
        rest = name.1 :: sign.1 :: value.tokens ∧ st = .binding name.1.text value.expr := by
  constructor
  · intro h
    rcases rest with _ | ⟨name, rest⟩
    · cases h
    rw [List.foldlM_cons, State.step] at h
    split at h
    case isFalse => cases h
    case isTrue hname =>
      rcases rest with _ | ⟨sign, rest⟩
      · cases h
      change ((sign :: rest).foldlM State.step (.named name.text)).bind State.result? = _ at h
      rw [List.foldlM_cons, State.step] at h
      split at h
      case isFalse => cases h
      case isTrue hsign =>
        obtain ⟨value, rfl, rfl⟩ := foldlM_value_eq_some_iff.mp h
        exact ⟨⟨name, TokenKind.isWord_iff.mp hname⟩, ⟨sign, by simp [hsign]⟩, value, rfl, rfl⟩
  · rintro ⟨name, sign, value, rfl, rfl⟩
    rw [List.foldlM_cons, State.step, if_pos (TokenKind.isWord_iff.mpr name.2)]
    change ((sign.1 :: value.tokens).foldlM State.step (.named name.1.text)).bind _ = _
    rw [List.foldlM_cons, State.step, if_pos sign.kind_eq]
    exact foldlM_value_eq_some_iff.mpr ⟨value, rfl, rfl⟩

/-- **The parser of statements is the grammar.** -/
theorem parseTokens_eq_ok_iff {first : Token} {rest : List Token} {st : Statement} :
    parser.parseTokens first rest = .ok st ↔
      ∃ d : Grammar.Statement, d.tokens = first :: rest ∧ d.statement = st := by
  refine Parser.run_eq_ok_iff.trans ?_
  change ((first :: rest).foldlM State.step .start).bind State.result? = some st ↔ _
  by_cases hword : first.kind = .letWord
  · have hfold : (first :: rest).foldlM State.step .start = rest.foldlM State.step .word := by
      rw [List.foldlM_cons, State.step, if_pos hword]
      rfl
    rw [hfold, foldlM_word_eq_some_iff]
    constructor
    · rintro ⟨name, sign, value, rfl, rfl⟩
      exact ⟨.binding ⟨first, by simp [hword]⟩ name sign value, rfl, rfl⟩
    · rintro ⟨d, hd, rfl⟩
      cases d with
      | binding word name sign value =>
        obtain ⟨rfl, rfl⟩ := List.cons.inj hd
        exact ⟨name, sign, value, rfl, rfl⟩
      | expression value hvalue =>
        have hhead : first ∈ value.tokens.head? := by simp [show value.tokens = _ from hd]
        exact absurd hword (hvalue first hhead)
  · have hfold : (first :: rest).foldlM State.step .start =
        (first :: rest).foldlM State.step (.value none .initial) := by
      rw [List.foldlM_cons, List.foldlM_cons, State.step, if_neg hword, State.step]
    rw [hfold, foldlM_value_eq_some_iff]
    constructor
    · rintro ⟨value, hvalue, rfl⟩
      exact ⟨.expression value (by simpa [hvalue] using hword), hvalue, rfl⟩
    · rintro ⟨d, hd, rfl⟩
      cases d with
      | binding word name sign value =>
        obtain ⟨rfl, rfl⟩ := List.cons.inj hd
        exact absurd word.kind_eq hword
      | expression value hvalue => exact ⟨value, hd, rfl⟩

/-- **One statement is parsed as the grammar has it**, where it has no form of its own. -/
theorem parseOne_eq_ok_iff {forms : List StatementForm} {first : Token} {rest : List Token}
    (hform : form? forms first = none) {st : Statement} :
    parseOne .tokens forms first rest = .ok st ↔
      ∃ d : Grammar.Statement, d.tokens = first :: rest ∧ d.statement = st := by
  rw [parseOne, hform]
  exact parseTokens_eq_ok_iff

end Statement

end TypedMemory
