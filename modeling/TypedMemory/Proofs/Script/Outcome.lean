import TypedMemory.Proofs.Script.Overlong

/-!
# Failures that leave an engine

A script can fail in two stages. First it may not parse: then nothing has been evaluated, and the
failure has a place in the script, which is the same behind another script but for the lines of
that one (`TypedMemory.Engine.parse_join_error`). If it does parse, then no step of it fails as one
that does not (`TypedMemory.Engine.run_parse_error`). For expressions this is known; declarations
are made of pieces that have been parsed, and these always fall into items.

Almost every failure that leaves an engine is one of this library's own. What is foreign comes from
a declaration that meets a number too long to be read or to be spelled, behind statements that have
ended well, and from nothing else (`TypedMemory.Engine.run_foreign_iff`).
-/

namespace TypedMemory

open Effect

variable {options : Options}

/-! ### Scripts that do not parse -/

theorem Token.exists_of_scanFrom_error {position : Position} {offset : Nat} {t : Text} {e : Error}
    (h : scanFrom position offset t = .error e) :
    ∃ cause place, e = .parse cause (some place) := by
  match t with
  | [] =>
    rw [scanFrom] at h
    cases h
  | c :: rest =>
    rw [scanFrom] at h
    split at h
    · exact ⟨_, _, (Except.error.inj h).symm⟩
    · next kind? length _ =>
      rcases or_of_bind_eq_error h with h | ⟨more, -, h⟩
      · exact exists_of_scanFrom_error h
      · cases kind? <;> cases h
termination_by t.length
decreasing_by simp only [List.length_drop, List.length_cons]; omega

namespace Statement

variable {forms : List StatementForm} {e : Error}

theorem exists_of_parseOne_error {first : Token} {rest : List Token}
    (h : parseOne .tokens forms first rest = .error e) :
    ∃ cause place, e = .parse cause (some place) := by
  rw [parseOne] at h
  split at h
  · exact StatementForm.pieces_fails (bind_pure_eq_error_iff.mp h)
  · exact Parser.run_fails h

theorem exists_of_parseRuns_error {runs : List (List Token)}
    (h : parseRuns .tokens forms runs = .error e) :
    ∃ cause place, e = .parse cause (some place) := by
  induction runs with
  | nil => cases h
  | cons run runs ih =>
    cases run with
    | nil => exact ih h
    | cons first rest =>
      rcases or_of_bind_eq_error h with h | ⟨st, -, h⟩
      · exact exists_of_parseOne_error h
      · exact ih (bind_pure_eq_error_iff.mp h)

/-- **A script that does not parse** fails with a parse error, and has a place. -/
theorem exists_of_parse_error {t : Text} (h : parse forms t = .error e) :
    ∃ cause place, e = .parse cause (some place) := by
  rw [parse_eq] at h
  rcases or_of_bind_eq_error h with h | ⟨tokens, -, h⟩
  · exact Token.exists_of_scanFrom_error h
  · exact exists_of_parseRuns_error h

end Statement

namespace Engine

/-- **Where a script does not parse** is told of the script alone. Behind another one that parses it
fails with the same cause, in the same column, and as many lines further down as the other one has,
and one more for the line between them. -/
theorem parse_join_error [Host] {s t : Text} {statements : List Statement} {e : Error}
    (hs : (standard options).parse s = .ok statements)
    (ht : (standard options).parse t = .error e) :
    ∃ cause position, e = .parse cause (some position) ∧
      (standard options).parse (s ++ joint ++ t) = .error (.parse cause
        (some ⟨position.line + s.count ('\n' : CodePoint) + 2, position.column⟩)) := by
  obtain ⟨cause, position, rfl⟩ := Statement.exists_of_parse_error ht
  refine ⟨cause, position, rfl, ?_⟩
  rw [parse_join hs, ht]
  rfl

/-- A field without its colon, on the second line of a declaration, behind a script of two lines
that ends in a comment. -/
theorem parse_join_error_colon :
    let s : Text := "let a = 1;\n[a, // more\n 2]"
    let t : Text := "native P \x7b\n  b UInt8 \x7d"
    let cause : ParseCause := .expectedPiece ":" "native" "UInt8"
    (∃ statements, (standard {}).parse s = .ok statements) ∧
      (standard {}).parse t = .error (.parse cause (some ⟨2, 5⟩)) ∧
      (standard {}).parse (s ++ joint ++ t) = .error (.parse cause (some ⟨6, 5⟩)) := by
  intro s t cause
  have hparses : ((standard {}).parse s).toOption.isSome = true := by decide +kernel
  obtain ⟨statements, hstatements⟩ := Option.isSome_iff_exists.mp hparses
  have hs := eq_ok_of_toOption hstatements
  have hfails : failure? ((standard {}).parse t) = some (.parse cause (some ⟨2, 5⟩)) := by
    decide +kernel
  have ht := failure?_eq_some_iff.mp hfails
  obtain ⟨_, _, heq, hjoin⟩ := parse_join_error hs ht
  cases heq
  exact ⟨⟨statements, hs⟩, ht, hjoin⟩

end Engine

/-! ### Statements that have been parsed -/

/-- If the statement is a declaration, then one that the grammar has. -/
def Statement.IsParsed : Statement → Prop
  | .custom keyword pieces => keyword = Native.keyword ∧
    ∃ d : Grammar.Declaration, pieces = d.pieces ∧ ∀ k ∈ d.tokens, k.IsSpelled
  | _ => True

theorem Engine.isParsed_of_parse [Host] {t : Text} {statements : List Statement}
    (h : (standard options).parse t = .ok statements) : ∀ st ∈ statements, st.IsParsed := by
  intro st hst
  cases st with
  | custom keyword pieces => exact exists_declaration_of_parse h hst
  | _ => trivial

/-! ### Runs -/

namespace Engine

section Runs

variable [Host] {s : Scope}

/-- A binding or an expression fails in the library's own ways. -/
theorem failsOnly_execute {st : Statement} (h : ∀ keyword pieces, st ≠ .custom keyword pieces) :
    FailsOnly Error.IsOwnBehindParsing ((standard options).execute s st) := by
  cases st with
  | binding name value =>
    refine (Expr.failsOnly_eval value).bind fun v => (Run.failsOnly_note _).bind fun _ =>
      FailsOnly.bind (Run.failsOnly_lift fun e he => ?_) fun s' => failsOnly_pure
    rw [Scope.withVariable] at he
    split at he
    · cases he
      exact ⟨rfl, rfl⟩
    · cases he
  | expression value => exact (Expr.failsOnly_eval value).bind fun v => failsOnly_pure
  | custom keyword pieces => exact absurd rfl (h keyword pieces)

/-- **A statement that has been parsed** never fails as one that does not parse. -/
theorem neverParses_execute {st : Statement} (h : st.IsParsed) (s : Scope) :
    FailsOnly (fun e => e.isParse = false) ((standard options).execute s st) := by
  cases st with
  | custom keyword pieces =>
    obtain ⟨rfl, d, rfl, hd⟩ := h
    exact Native.neverParses_declare hd
  | _ =>
    intro m e m' he
    exact (failsOnly_execute (by nofun) m e m' he).2

theorem neverParses_executeAll {statements : List Statement} (h : ∀ st ∈ statements, st.IsParsed)
    (v : Value) (s : Scope) :
    FailsOnly (fun e => e.isParse = false) ((standard options).executeAll v s statements) := by
  induction statements generalizing v s with
  | nil => exact failsOnly_pure
  | cons st rest ih =>
    rw [List.forall_mem_cons] at h
    exact (neverParses_execute h.1 s).bind fun r => ih h.2 r.1 r.2

/-- **A parse error means that nothing ran.** In a script that parses, the pieces of every
declaration fall into items, unless there is a padding with too many digits to be read, and even
then the failure is none of parsing; and no statement ever fails as one that does not parse. So
where a run fails in this way it is the script that does not parse, and the machine is as it was. -/
theorem run_parse_error (options : Options) (t : Text) :
    (∀ statements, (standard options).parse t = .ok statements →
      (∀ keyword pieces, .custom keyword pieces ∈ statements →
        (∃ r, Native.items pieces = .ok r) ∨
          Native.items pieces = .error (.failure .badValue) ∧ ∃ p ∈ pieces, p.IsOverlong) ∧
      ∀ st ∈ statements, ∀ s m e m', (standard options).execute s st m = (.error e, m') →
        e.isParse = false) ∧
    ∀ s m e m', (standard options).run t s m = (.error e, m') → e.isParse = true →
      (standard options).parse t = .error e ∧ m' = m := by
  refine ⟨fun statements h => ⟨fun keyword pieces hmem => ?_, fun st hst s => ?_⟩,
    fun s m e m' h he => ?_⟩
  · obtain ⟨-, d, rfl, hd⟩ := exists_declaration_of_parse h hmem
    cases hitems : Native.items d.pieces with
    | ok r => exact .inl ⟨r, rfl⟩
    | error e =>
      obtain ⟨rfl, hlong⟩ := (Native.items_eq_error_iff hd).mp hitems
      exact .inr ⟨rfl, hlong⟩
  · exact neverParses_execute (isParsed_of_parse h st hst) s
  · rcases or_of_bind_error h with h | ⟨statements, m₁, hparse, h⟩
    · exact Prod.mk.inj h |>.imp id Eq.symm
    · have hparse : (standard options).parse t = .ok statements := congrArg Prod.fst hparse
      rcases or_of_bind_error h with h | ⟨-, m₂, -, h⟩
      · cases h
      · have hnot := neverParses_executeAll (isParsed_of_parse hparse) _ _ _ _ _ h
        cases hnot.symm.trans he

end Runs

/-- A declaration without items behind a statement that would write: the memory is as it was. With
an item it parses, and then cannot fail in this way any more. -/
theorem run_parse_error_behind_write :
    let empty : Text := "MEMORY.write(UInt8, 0, 1); native P \x7b \x7d"
    let padded : Text := "native P \x7b ^ 2 \x7d"
    let s : Scope := ⟨[⟨"MEMORY", .memory⟩], [], 0⟩
    let m : Machine := ⟨{ bytes := [7] }, []⟩
    (∃ e, (standard {}).run empty s m = (.error e, m) ∧ e.isParse = true ∧
      (standard {}).parse empty = .error e) ∧
    ∃ statements, (standard {}).parse padded = .ok statements ∧
      ∀ st ∈ statements, ∀ s m e m', (standard {}).execute s st m = (.error e, m') →
        e.isParse = false := by
  intro empty padded s m
  constructor
  · have hfails : (failure? ((standard {}).run empty s m).1).any Error.isParse = true := by
      decide +kernel
    rcases hrun : (standard {}).run empty s m with ⟨r, m'⟩
    rw [hrun] at hfails
    cases r with
    | ok r => cases hfails
    | error e =>
      obtain ⟨hparse, rfl⟩ := (run_parse_error {} empty).2 s m e m' hrun hfails
      exact ⟨e, rfl, hfails, hparse⟩
  · have hparses : ((standard {}).parse padded).toOption.isSome = true := by decide +kernel
    obtain ⟨statements, hstatements⟩ := Option.isSome_iff_exists.mp hparses
    have hparse := eq_ok_of_toOption hstatements
    exact ⟨statements, hparse, ((run_parse_error {} padded).1 statements hparse).2⟩

/-! ### What is foreign -/

section Foreign

variable [Host] {s : Scope}

/-- **When a statement fails in a foreign way**: it is a declaration, with a number that is too
long. -/
theorem execute_foreign_iff {st : Statement} (hst : st.IsParsed) (hn : st.IsNatural)
    (hs : s.EveryPart Layout.isProper) {m : Machine} {e : Error} :
    ((standard options).execute s st m).1 = .error e ∧ e.isOwn = false ↔
      ∃ pieces, st = .custom Native.keyword pieces ∧ Native.Overlong options s pieces m e := by
  cases st with
  | custom keyword pieces =>
    obtain ⟨rfl, d, rfl, hd⟩ := hst
    have hdeclare : (standard options).execute s (.custom Native.keyword d.pieces) =
        Native.declare options s d.pieces := rfl
    rw [hdeclare, Native.declare_foreign_iff hd hn hs]
    constructor
    · exact fun h => ⟨d.pieces, rfl, h⟩
    · rintro ⟨pieces, heq, h⟩
      cases heq
      exact h
  | _ =>
    constructor
    · rintro ⟨h, he⟩
      have hown := (failsOnly_execute (by nofun) m e _ (Prod.ext h rfl)).1
      cases hown.symm.trans he
    · rintro ⟨pieces, heq, -⟩
      cases heq

/-- **When statements one after another fail in a foreign way**: one of them does, and those before
it have ended well. -/
theorem executeAll_foreign_iff {statements : List Statement}
    (h : ∀ st ∈ statements, st.IsParsed ∧ st.IsNatural) (v : Value)
    (hs : s.EveryPart Layout.isProper) {m : Machine} {e : Error} :
    ((standard options).executeAll v s statements m).1 = .error e ∧ e.isOwn = false ↔
      ∃ front pieces back r m₁, statements = front ++ .custom Native.keyword pieces :: back ∧
        (standard options).executeAll v s front m = (.ok r, m₁) ∧
        Native.Overlong options r.2 pieces m₁ e := by
  have hkeeps : ∀ c ∈ (standard options).syntaxes, c.Keeps Layout.isProper := fun c hc => by
    rw [List.mem_singleton.mp hc]
    exact Native.keeps_proper
  induction statements generalizing v s m with
  | nil =>
    constructor
    · rintro ⟨⟨⟩, -⟩
    · rintro ⟨front, pieces, back, r, m₁, heq, -⟩
      cases front <;> cases heq
  | cons st rest ih =>
    rw [List.forall_mem_cons] at h
    have hproper : ∀ {r m₁}, (standard options).execute s st m = (.ok r, m₁) →
        r.2.EveryPart Layout.isProper := fun hr =>
      (gives_execute Layout.concernsStructs_proper hkeeps hs h.1.2 m _ _ hr).2
    constructor
    · rintro ⟨hfails, he⟩
      rcases or_of_bind_error (Prod.ext hfails rfl) with hfirst | ⟨r, m₁, hr, hrest⟩
      · obtain ⟨pieces, rfl, hlong⟩ :=
          (execute_foreign_iff h.1.1 h.1.2 hs).mp ⟨congrArg Prod.fst hfirst, he⟩
        exact ⟨[], pieces, rest, (v, s), m, rfl, rfl, hlong⟩
      · obtain ⟨front, pieces, back, r', m₂, rfl, hfront, hlong⟩ :=
          (ih h.2 r.1 (hproper hr)).mp ⟨congrArg Prod.fst hrest, he⟩
        exact ⟨st :: front, pieces, back, r', m₂, rfl, (bind_of_ok hr).trans hfront, hlong⟩
    · rintro ⟨front, pieces, back, r, m₁, heq, hfront, hlong⟩
      cases front with
      | nil =>
        obtain ⟨rfl, rfl⟩ := List.cons.inj heq
        cases hfront
        obtain ⟨hfails, he⟩ := (execute_foreign_iff h.1.1 h.1.2 hs).mpr ⟨pieces, rfl, hlong⟩
        exact ⟨congrArg Prod.fst (bind_of_error (Prod.ext hfails rfl)), he⟩
      | cons st' front =>
        obtain ⟨rfl, rfl⟩ := List.cons.inj heq
        obtain ⟨r₁, m₂, hr, hfront⟩ := exists_of_bind_ok hfront
        obtain ⟨hfails, he⟩ :=
          (ih h.2 r₁.1 (hproper hr)).mpr ⟨front, pieces, back, r, m₁, rfl, hfront, hlong⟩
        exact ⟨(congrArg Prod.fst (bind_of_ok hr)).trans hfails, he⟩

/-- **When a run fails in a foreign way.** In a scope of values with nothing but layouts in the
place of layouts, a failure that leaves the engine is one of this library's own, unless a
declaration of the script, behind statements that have ended well, meets a number that is too long.
And then it does fail so. -/
theorem run_foreign_iff (options : Options) (t : Text) {s : Scope}
    (hs : s.EveryPart Layout.isProper) (m : Machine) (e : Error) :
    ((standard options).run t s m).1 = .error e ∧ e.isOwn = false ↔
      ∃ front pieces back r m₁,
        let statements := front ++ .custom Native.keyword pieces :: back
        (standard options).parse t = .ok statements ∧
        (standard options).executeAll .unit s front
          { m with log := m.log ++ [.evaluating statements.length] } = (.ok r, m₁) ∧
        Native.Overlong options r.2 pieces m₁ e := by
  cases hparse : (standard options).parse t with
  | error e' =>
    obtain ⟨cause, place, rfl⟩ := Statement.exists_of_parse_error hparse
    rw [run, hparse]
    constructor
    · rintro ⟨⟨⟩, ⟨⟩⟩
    · rintro ⟨front, pieces, back, r, m₁, ⟨⟩, -⟩
  | ok statements =>
    have hrun : (standard options).run t s m = (standard options).executeAll .unit s statements
        { m with log := m.log ++ [.evaluating statements.length] } := by
      rw [run, hparse]
      rfl
    have hstatements : ∀ st ∈ statements, st.IsParsed ∧ st.IsNatural := fun st hst =>
      ⟨isParsed_of_parse hparse st hst, Statement.isNatural_of_parse hparse st hst⟩
    rw [hrun, executeAll_foreign_iff hstatements .unit hs]
    constructor
    · rintro ⟨front, pieces, back, r, m₁, rfl, hfront, hlong⟩
      exact ⟨front, pieces, back, r, m₁, rfl, hfront, hlong⟩
    · rintro ⟨front, pieces, back, r, m₁, heq, hfront, hlong⟩
      cases heq
      exact ⟨front, pieces, back, r, m₁, rfl, hfront, hlong⟩

end Foreign

/-- Two fields behind a huge one, the first of them without bytes: the second is refused, and the
offset of both is too long to be told. -/
theorem run_foreign_iff_offset :
    let options : Options := { overlapPolicy := some .reject }
    let s : Scope := ⟨[⟨"t", .type (.text (wordCount 16384))⟩], [], 0⟩
    let m : Machine := ⟨{ bytes := [] }, []⟩
    let t : Text := "native T \x7b a: t, b: Text(0), c: UInt8 \x7d"
    s.EveryPart Layout.isProper ∧ ∃ (front back : List Statement) (pieces : List Piece)
        (r : Value × Scope) (m₁ : Machine),
      let statements := front ++ .custom Native.keyword pieces :: back
      (standard options).parse t = .ok statements ∧
      (standard options).executeAll .unit s front
        { m with log := m.log ++ [.evaluating statements.length] } = (.ok r, m₁) ∧
      Native.Overlong options r.2 pieces m₁ (.failure .longNumeral) := by
  intro options s m t
  have hs : s.EveryPart Layout.isProper := fun e he => by
    rw [List.mem_singleton.mp he]
    rfl
  have hfails : failure? ((standard options).run t s m).1 = some (.failure .longNumeral) := by
    decide +kernel
  have hrun := failure?_eq_some_iff.mp hfails
  obtain ⟨front, pieces, back, r, m₁, hparse, hfront, hlong⟩ :=
    (run_foreign_iff options t hs m (.failure .longNumeral)).mp ⟨hrun, rfl⟩
  exact ⟨hs, front, back, pieces, r, m₁, hparse, hfront, hlong⟩

/-- A field so large that the size of the struct cannot be spelled in the note on it: the failure
to do so leaves the engine, and the declaration is lost. -/
theorem run_of_unspellable_size :
    let s : Scope := ⟨[⟨"t", .type (.text (wordCount 16384))⟩], [], 0⟩
    let m : Machine := ⟨{ bytes := [] }, []⟩
    s.EveryPart Layout.isProper ∧
      ((standard {}).run "native T \x7b a: t \x7d" s m).1 = .error (.failure .longNumeral) ∧
      (Error.failure .longNumeral).isOwn = false := by
  intro s m
  have hfails : failure? ((standard {}).run "native T \x7b a: t \x7d" s m).1 =
      some (.failure .longNumeral) := by decide +kernel
  refine ⟨fun e he => ?_, failure?_eq_some_iff.mp hfails, rfl⟩
  rw [List.mem_singleton.mp he]
  rfl

end Engine

end TypedMemory
