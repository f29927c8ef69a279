import TypedMemory.Proofs.Script.Boundaries
import TypedMemory.Proofs.Script.Declaration
import TypedMemory.Proofs.Script.Moving

/-!
# Scripts one behind the other

Two scripts with a semicolon on a line of its own between them are one script, and it has the
statements of the first and then those of the second, further on
(`TypedMemory.Engine.parse_join`). The first one has to parse; if the second one does not, the
whole fails as the second does, further on.

Three things could go wrong at the join, and do not. A token of the first script, a string or a
comment could go on over its end: but a line feed ends every token
(`TypedMemory.Token.isBreak_feed`). The semicolon could stand inside of brackets that are left
open: but what parses is level, so the first script ends outside of brackets
(`TypedMemory.Engine.depthBehind_of_parse`). And the second script could be parsed otherwise
at another place, from other slices: but parsing goes by tokens (`TypedMemory.Statement.parse_eq`),
wherever they stand (`TypedMemory.Statement.parseRuns_moved`).
-/

namespace TypedMemory

/-- What stands between two scripts. -/
def joint : Text := "\n;\n"

namespace Position

/-- A text has as many lines below it as it has line feeds. -/
theorem line_behind (p : Position) (t : Text) :
    (p.behind t).line = p.line + t.count ('\n' : CodePoint) := by
  induction t generalizing p with
  | nil => rfl
  | cons c rest ih =>
    refine (ih (p.after c)).trans ?_
    rw [after, List.count_cons]
    by_cases hc : c = ('\n' : CodePoint)
    · rw [if_pos hc, hc, beq_self_eq_true, if_pos rfl, Nat.add_right_comm, Nat.add_assoc]
    · rw [if_neg hc, if_neg (by simpa using hc)]
      rfl

end Position

namespace Token

/-! ### The tokens of two scripts -/

/-- A line feed is passed over. -/
theorem scanFrom_feed (position : Position) (offset : Nat) (rest : Text) :
    scanFrom position offset (('\n' : CodePoint) :: rest) =
      scanFrom ⟨position.line + 1, 1⟩ (offset + 1) rest := by
  have hfeed : lexeme? ('\n' : CodePoint) rest = some (none, 0) := rfl
  have hposition : position.behind [('\n' : CodePoint)] = ⟨position.line + 1, 1⟩ := rfl
  rw [scanFrom, hfeed]
  simp only [List.take_zero, List.drop_zero, List.length_singleton, hposition, bind_pure]

theorem scanFrom_joint (position : Position) (offset : Nat) (t : Text) :
    scanFrom position offset (joint ++ t) =
      (scanFrom ⟨position.line + 2, 1⟩ (offset + 3) t).map
        (⟨.semicolon, ";", ⟨position.line + 1, 1⟩, offset + 1⟩ :: ·) := by
  have hsemicolon : lexeme? (';' : CodePoint) (('\n' : CodePoint) :: t) =
      some (some .semicolon, 0) := rfl
  have hposition : (⟨position.line + 1, 1⟩ : Position).behind [(';' : CodePoint)] =
      ⟨position.line + 1, 2⟩ := rfl
  have hjoint : joint ++ t =
      ('\n' : CodePoint) :: (';' : CodePoint) :: ('\n' : CodePoint) :: t := rfl
  rw [hjoint, scanFrom_feed, scanFrom, hsemicolon]
  simp only [List.take_zero, List.drop_zero, List.length_singleton, hposition, scanFrom_feed]
  cases scanFrom ⟨position.line + 1 + 1, 1⟩ (offset + 1 + 1 + 1) t <;> rfl

/-- The semicolon between a script and the next one. -/
def semicolonBehind (t : Text) : Token :=
  ⟨.semicolon, ";", ⟨t.count ('\n' : CodePoint) + 2, 1⟩, t.length + 1⟩

end Token

/-- How far below a script the next one stands. -/
def Shift.behind (t : Text) : Shift := ⟨t.count ('\n' : CodePoint) + 2, t.length + 3⟩

/-- **The tokens of two scripts** are those of the first, a semicolon, and those of the second
further on. -/
theorem Token.scan_join {s t : Text} {tokens : List Token} (h : scan s = .ok tokens) :
    scan (s ++ joint ++ t) =
      moveResult (.behind s) (fun more => tokens ++ semicolonBehind s ::
        more.map (moved (.behind s))) (scan t) := by
  have hline : (Position.start.behind s).line = s.count ('\n' : CodePoint) + 1 := by
    rw [Position.line_behind, Nat.add_comm]
    rfl
  have hmoved : (⟨s.count ('\n' : CodePoint) + 1 + 2, 1⟩ : Position) =
      Position.start.moved (.behind s) :=
    congrArg (Position.mk · 1) (by simp only [Shift.behind, Position.start]; omega)
  have hoffset : 0 + s.length + 3 = 0 + (Shift.behind s).count := Nat.add_assoc 0 s.length 3
  have hjoint : s ++ joint ++ t = s ++ ('\n' : CodePoint) :: ((';' : CodePoint) ::
      ('\n' : CodePoint) :: t) := List.append_assoc s joint t
  have hfeed : ('\n' : CodePoint) :: ((';' : CodePoint) :: ('\n' : CodePoint) :: t) = joint ++ t :=
    rfl
  rw [hjoint, scan, scanFrom_append isBreak_feed h (.inl rfl), hfeed, scanFrom_joint, hline,
    hmoved, hoffset, scanFrom_moved, scan]
  cases scanFrom .start 0 t with
  | error e => rfl
  | ok more =>
    simp [moveResult, Except.map, semicolonBehind]

/-! ### Where the first script ends -/

namespace Grammar

theorem Item.isLevel (depth : Nat) : (i : Item) → Token.IsLevel depth i.tokens
  | .padding mark amount => mark.isLevel_cons (amount.isLevel_cons .nil)
  | .field name colon type => name.isLevel_cons (colon.isLevel_cons (type.isLevel depth))

/-- A declaration is level. -/
theorem Declaration.isLevel (depth : Nat) (d : Declaration) : Token.IsLevel depth d.tokens := by
  have hmore : ∀ more : List (Terminal [.comma] × Item),
      Token.IsLevel (depth + 1) (more.flatMap fun m => m.1.1 :: m.2.tokens) := by
    intro more
    induction more with
    | nil => exact .nil
    | cons m more ih =>
      rw [List.flatMap_cons]
      exact (m.1.isLevel_comma (m.2.isLevel _)).append ih
  rw [Declaration.tokens, ← List.append_assoc]
  exact d.name.isLevel_cons
    (d.opening.isLevel_brackets d.closing ((d.first.isLevel _).append (hmore _)))

end Grammar

namespace Engine

variable [Host]

theorem form?_standard {options : Options} {first : Token} {form : StatementForm}
    (h : Statement.form? (standard options).forms first = some form) :
    first.kind = .name ∧ form = Native.form := by
  rw [Statement.form?] at h
  split at h
  · next hname => exact ⟨hname, List.mem_singleton.mp (List.mem_of_find?_eq_some h)⟩
  · cases h

/-- What parses as a statement ends outside of brackets. -/
theorem depthBehind_of_parseOne {options : Options} {first : Token} {rest : List Token}
    {st : Statement} (hspelled : ∀ t ∈ rest, t.IsSpelled)
    (h : Statement.parseOne .tokens (standard options).forms first rest = .ok st) :
    Token.depthBehind 0 (first :: rest) = 0 := by
  cases hform : Statement.form? (standard options).forms first with
  | none =>
    obtain ⟨d, hd, -⟩ := (Statement.parseOne_eq_ok_iff hform).mp h
    rw [← hd]
    exact (d.isLevel 0).depthBehind_eq
  | some form =>
    obtain ⟨hname, rfl⟩ := form?_standard hform
    rw [Statement.parseOne, hform] at h
    obtain ⟨ps, hps, -⟩ := exists_of_bind_eq_ok h
    obtain ⟨d, rfl, -⟩ := (Native.pieces_eq_ok_iff hspelled).mp hps
    have hfirst : first.depthAfter 0 = 0 := by
      simp [Token.depthAfter, hname, TokenKind.isOpener, TokenKind.isCloser]
    rw [Token.depthBehind_cons, hfirst]
    exact (d.isLevel 0).depthBehind_eq

omit [Host] in
/-- What statements consist of parses by itself. -/
theorem exists_of_parseRuns {forms : List StatementForm} {runs : List (List Token)}
    {ss : List Statement} (h : Statement.parseRuns .tokens forms runs = .ok ss) {first : Token}
    {rest : List Token} (hrun : first :: rest ∈ runs) :
    ∃ st, Statement.parseOne .tokens forms first rest = .ok st := by
  induction runs generalizing ss with
  | nil => cases hrun
  | cons run runs ih =>
    cases run with
    | nil =>
      rcases List.mem_cons.mp hrun with heq | hrun
      · cases heq
      · exact ih h hrun
    | cons t tokens =>
      obtain ⟨st, hst, h⟩ := exists_of_bind_eq_ok h
      obtain ⟨more, hmore, -⟩ := exists_of_bind_eq_ok h
      rcases List.mem_cons.mp hrun with heq | hrun
      · cases heq
        exact ⟨st, hst⟩
      · exact ih hmore hrun

/-- **A script that parses** ends outside of brackets. -/
theorem depthBehind_of_parse {options : Options} {t : Text} {tokens : List Token}
    {ss : List Statement} (hscan : Token.scan t = .ok tokens)
    (h : (standard options).parse t = .ok ss) : Token.depthBehind 0 tokens = 0 := by
  rw [parse, Statement.parse_eq, hscan] at h
  have hrun : ∀ run ∈ Token.runs 0 tokens, Token.depthBehind 0 run = 0 := by
    intro run hrun
    cases run with
    | nil => rfl
    | cons first rest =>
      obtain ⟨st, hst⟩ := exists_of_parseRuns h (List.mem_filter.mpr ⟨hrun, rfl⟩)
      refine depthBehind_of_parseOne (fun k hk => ?_) hst
      exact Token.isSpelled_of_scanFrom hscan k
        (Token.mem_of_mem_runs hrun k (List.mem_cons_of_mem _ hk))
  obtain ⟨first, more, hruns⟩ := List.exists_cons_of_ne_nil (Token.runs_ne_nil 0 tokens)
  rw [hruns, List.forall_mem_cons] at hrun
  exact Token.depthBehind_eq_zero hruns hrun.1 hrun.2

/-! ### The statements of two scripts -/

omit [Host] in
theorem parseRuns_append {forms : List StatementForm} {front : List (List Token)}
    {ss : List Statement} (h : Statement.parseRuns .tokens forms front = .ok ss)
    (back : List (List Token)) :
    Statement.parseRuns .tokens forms (front ++ back) =
      (Statement.parseRuns .tokens forms back).map (ss ++ ·) := by
  induction front generalizing ss with
  | nil =>
    cases h
    cases hback : Statement.parseRuns .tokens forms back <;> simp [Except.map, hback]
  | cons run front ih =>
    cases run with
    | nil => exact ih h
    | cons first rest =>
      obtain ⟨st, hst, h⟩ := exists_of_bind_eq_ok h
      obtain ⟨more, hmore, h⟩ := exists_of_bind_eq_ok h
      cases h
      rw [List.cons_append, Statement.parseRuns, hst, ih hmore]
      cases Statement.parseRuns .tokens forms back <;> rfl

/-- **Two scripts one behind the other** are parsed as the first, and then as the second further
on. -/
theorem parse_join {options : Options} {s t : Text} {ss : List Statement}
    (h : (standard options).parse s = .ok ss) :
    (standard options).parse (s ++ joint ++ t) =
      moveResult (.behind s) (fun more => ss ++ more.map (Statement.moved (.behind s)))
        ((standard options).parse t) := by
  have hparse := h
  rw [parse, Statement.parse_eq] at h
  obtain ⟨tokens, hscan, hruns⟩ := exists_of_bind_eq_ok h
  have hdepth := depthBehind_of_parse hscan hparse
  rw [parse, parse, Statement.parse_eq, Statement.parse_eq, Token.scan_join hscan]
  refine moveResult_bind (fun more => ?_) _
  have hstatements : Token.statements (tokens ++ Token.semicolonBehind s ::
      more.map (Token.moved (.behind s))) = Token.statements tokens ++
        (Token.statements more).map (List.map (Token.moved (.behind s))) := by
    have hsemicolon : (Token.semicolonBehind s).kind = .semicolon := rfl
    rw [← Token.statements_moved, Token.statements, Token.runs_append hdepth hsemicolon,
      List.filter_append]
    rfl
  rw [hstatements, parseRuns_append hruns, Statement.parseRuns_moved]
  cases Statement.parseRuns .tokens (standard options).forms (Token.statements more) <;> rfl

end Engine

end TypedMemory
