import TypedMemory.Proofs.Script.Grammar

/-!
# Derivations in the making

The machine that parses expressions keeps as little as it can: frames with trees in them. Here
is the same machine once more, with nothing thrown away: it keeps **derivations** where the
other keeps trees, and for each open bracket what was waiting in front of it. Such a state is a
derivation in the making (`TypedMemory.Grammar.Partial`).

Two facts tie it to what it is between.

* A move takes its token: the tokens of what has been put together so far grow by it, and by
  nothing else (`TypedMemory.Grammar.Partial.tokens_step`). So what comes out at the end derives
  just the tokens that went in.
* Forgetting all but the trees takes one machine to the other, move by move, and none of them
  has a move where the other has none (`TypedMemory.Grammar.Partial.state_step`).

What waits inside of one bracket is at most the left side of a comparison, then at most the
terms of a sum, then minus signs, in this order. On the stack of frames that is an invariant;
here the type `TypedMemory.Grammar.Pending` says it.
-/

namespace TypedMemory.Grammar

open TypedMemory.Expr (Sign Comparison Callee Frame Mode State)

/-! ### Unfinished derivations -/

/-- What arguments are given to: a function by its name, or a method of a target. -/
inductive Caller
  | function (name : Name)
  | method (target : Chain) (dot : Terminal [.dot]) (name : Word)

/-- What waits for an operand behind the innermost open bracket. -/
structure Pending where
  side : Option (Sum × Terminal [.equal, .notEqual]) := none
  term : Option (Sum × Terminal [.plus, .minus]) := none
  /-- The minus signs, the last first. -/
  signs : List (Terminal [.minus]) := []

/-- An open bracket, with what stands in it so far up to a comma. -/
inductive Opening
  | group (opening : Terminal [.leftParen])
  | array (opening : Terminal [.leftBracket]) (before : Option (Arguments × Terminal [.comma]))
  | arguments (caller : Caller) (opening : Terminal [.leftParen])
      (before : Option (Arguments × Terminal [.comma]))
  | key (target : Chain) (opening : Terminal [.leftBracket])
  | entry (opening : Terminal [.hashBrace]) (before : Option (Entries × Terminal [.comma]))
      (name : Word) (colon : Terminal [.colon])

/-- What was read last. -/
inductive Stage
  | operand
  | behind (c : Chain)
  | member (target : Chain) (dot : Terminal [.dot])
  | entryName (opening : Terminal [.hashBrace]) (before : Option (Entries × Terminal [.comma]))
  | colon (opening : Terminal [.hashBrace]) (before : Option (Entries × Terminal [.comma]))
      (name : Word)

/-- **A derivation in the making.** Each open bracket stands with what was waiting in front of
it, the innermost first. -/
structure Partial where
  outer : List (Opening × Pending) := []
  pending : Pending := {}
  stage : Stage := .operand

/-! ### Completing -/

/-- The call that arguments complete. -/
def Caller.chain (opening : Terminal [.leftParen]) (arguments : OptionalArguments)
    (closing : Terminal [.rightParen]) : Caller → Chain
  | function name => .atom (.call name opening arguments closing)
  | method target dot name => .methodCall target dot name opening arguments closing

/-- What arguments can be given to, if they can. -/
def Chain.caller? : Chain → Option Caller
  | .atom (.name n) => some (.function n)
  | .member target dot name => some (.method target dot name)
  | _ => none

/-- One more argument. -/
def Arguments.add (e : Expression) : Option (Arguments × Terminal [.comma]) → Arguments
  | none => .single e
  | some (before, comma) => .more before comma e

/-- One more entry. -/
def Entries.add (e : NamedExpression) : Option (Entries × Terminal [.comma]) → Entries
  | none => .single e
  | some (before, comma) => .more before comma e

/-- An operand with minus signs in front of it, the last first. -/
def Unary.signed (u : Unary) : List (Terminal [.minus]) → Unary
  | [] => u
  | sign :: rest => Unary.signed (.negation sign u) rest

namespace Pending

/-- Whether nothing waits. -/
def isNothing (p : Pending) : Bool := p.side.isNone && p.term.isNone && p.signs.isEmpty

theorem eq_of_isNothing {p : Pending} (h : p.isNothing = true) : p = {} := by
  obtain ⟨side, term, signs⟩ := p
  simpa [isNothing, and_assoc] using h

/-- The sum that an operand completes. -/
def sum (p : Pending) (c : Chain) : Sum :=
  match p.term with
  | none => .single (Unary.signed (.chain c) p.signs)
  | some (left, sign) => .more left sign (Unary.signed (.chain c) p.signs)

/-- The expression that an operand completes. -/
def expression (p : Pending) (c : Chain) : Expression :=
  match p.side with
  | none => .sum (p.sum c)
  | some (left, sign) => .comparison left sign (p.sum c)

end Pending

/-! ### The moves -/

namespace Partial

/-- The move where an operand can stand. -/
def stepOperand (s : Partial) (t : Token) : Option Partial :=
  match h : t.kind with
  | .name | .letWord => some { s with stage := .behind (.atom (.name ⟨t, by simp [h]⟩)) }
  | .hexNumber | .int | .decimal | .string | .trueWord | .falseWord =>
    some { s with stage := .behind (.atom (.literal ⟨t, by simp [h]⟩)) }
  | .minus =>
    some ⟨s.outer, { s.pending with signs := ⟨t, by simp [h]⟩ :: s.pending.signs }, .operand⟩
  | .leftParen => some { outer := (.group ⟨t, by simp [h]⟩, s.pending) :: s.outer }
  | .leftBracket => some { outer := (.array ⟨t, by simp [h]⟩ none, s.pending) :: s.outer }
  | .hashBrace => some { s with stage := .entryName ⟨t, by simp [h]⟩ none }
  | .rightParen =>
    match s.pending.isNothing, s.outer with
    | true, (.arguments caller opening none, p) :: outer =>
      some ⟨outer, p, .behind (caller.chain opening .absent ⟨t, by simp [h]⟩)⟩
    | _, _ => none
  | .rightBracket =>
    match s.pending.isNothing, s.outer with
    | true, (.array opening none, p) :: outer =>
      some ⟨outer, p, .behind (.atom (.array opening .absent ⟨t, by simp [h]⟩))⟩
    | _, _ => none
  | _ => none

/-- The move behind an operand. -/
def stepBehind (s : Partial) (c : Chain) (t : Token) : Option Partial :=
  match h : t.kind with
  | .dot => some { s with stage := .member c ⟨t, by simp [h]⟩ }
  | .leftBracket => some { outer := (.key c ⟨t, by simp [h]⟩, s.pending) :: s.outer }
  | .leftParen => c.caller?.map fun caller =>
    { outer := (.arguments caller ⟨t, by simp [h]⟩ none, s.pending) :: s.outer }
  | .plus | .minus =>
    some ⟨s.outer, ⟨s.pending.side, some (s.pending.sum c, ⟨t, by simp [h]⟩), []⟩, .operand⟩
  | .equal | .notEqual =>
    match s.pending.side with
    | none => some ⟨s.outer, ⟨some (s.pending.sum c, ⟨t, by simp [h]⟩), none, []⟩, .operand⟩
    | some _ => none
  | .rightParen =>
    match s.outer with
    | (.group opening, p) :: outer =>
      some ⟨outer, p, .behind (.atom (.group opening (s.pending.expression c) ⟨t, by simp [h]⟩))⟩
    | (.arguments caller opening before, p) :: outer =>
      some ⟨outer, p, .behind (caller.chain opening
        (.present (.add (s.pending.expression c) before)) ⟨t, by simp [h]⟩)⟩
    | _ => none
  | .rightBracket =>
    match s.outer with
    | (.array opening before, p) :: outer =>
      some ⟨outer, p, .behind (.atom (.array opening
        (.present (.add (s.pending.expression c) before)) ⟨t, by simp [h]⟩))⟩
    | (.key target opening, p) :: outer =>
      some ⟨outer, p, .behind (.index target opening (s.pending.expression c) ⟨t, by simp [h]⟩)⟩
    | _ => none
  | .rightBrace =>
    match s.outer with
    | (.entry opening before name colon, p) :: outer =>
      some ⟨outer, p, .behind (.atom (.record opening
        (.present (.add ⟨name, colon, s.pending.expression c⟩ before)) ⟨t, by simp [h]⟩))⟩
    | _ => none
  | .comma =>
    match s.outer with
    | (.array opening before, p) :: outer =>
      some { outer := (.array opening
        (some (.add (s.pending.expression c) before, ⟨t, by simp [h]⟩)), p) :: outer }
    | (.arguments caller opening before, p) :: outer =>
      some { outer := (.arguments caller opening
        (some (.add (s.pending.expression c) before, ⟨t, by simp [h]⟩)), p) :: outer }
    | (.entry opening before name colon, p) :: outer =>
      some ⟨outer, p, .entryName opening
        (some (.add ⟨name, colon, s.pending.expression c⟩ before, ⟨t, by simp [h]⟩))⟩
    | _ => none
  | _ => none

/-- The move on a token, if there is one. -/
def step (s : Partial) (t : Token) : Option Partial :=
  match s.stage with
  | .operand => s.stepOperand t
  | .behind c => s.stepBehind c t
  | .member target dot =>
    if h : t.kind ∈ [.name, .letWord, .trueWord, .falseWord] then
      some { s with stage := .behind (.member target dot ⟨t, h⟩) }
    else none
  | .entryName opening before =>
    if h : t.kind ∈ [.name, .letWord, .trueWord, .falseWord] then
      some { s with stage := .colon opening before ⟨t, h⟩ }
    else if h : t.kind ∈ [.rightBrace] then
      match before with
      | none => some { s with stage := .behind (.atom (.record opening .absent ⟨t, h⟩)) }
      | some _ => none
    else none
  | .colon opening before name =>
    if h : t.kind ∈ [.colon] then
      some { outer := (.entry opening before name ⟨t, h⟩, s.pending) :: s.outer }
    else none

/-- The expression, if the tokens may end here. -/
def result? (s : Partial) : Option Expression :=
  match s.stage, s.outer with
  | .behind c, [] => some (s.pending.expression c)
  | _, _ => none

/-- Let the machine take tokens. -/
def run (s : Partial) (tokens : List Token) : Option Partial := tokens.foldlM step s

end Partial

/-! ### The tokens of a derivation in the making -/

/-- The tokens of a list up to a comma. -/
@[simp] def beforeTokens {α : Type} (tokens : α → List Token) :
    Option (α × Terminal [.comma]) → List Token
  | none => []
  | some (a, comma) => tokens a ++ [comma.1]

/-- The tokens of what arguments are given to. -/
def Caller.tokens : Caller → List Token
  | function name => [name.1]
  | method target dot name => target.tokens ++ [dot.1, name.1]

/-- The tokens of what waits. -/
@[simp] def Pending.tokens (p : Pending) : List Token :=
  (match p.side with
    | none => []
    | some (left, sign) => left.tokens ++ [sign.1]) ++
  (match p.term with
    | none => []
    | some (left, sign) => left.tokens ++ [sign.1]) ++ (p.signs.map Subtype.val).reverse

/-- The tokens of an open bracket and of what stands in it up to a comma. -/
@[simp] def Opening.tokens : Opening → List Token
  | group opening => [opening.1]
  | array opening before => opening.1 :: beforeTokens Arguments.tokens before
  | arguments caller opening before =>
    caller.tokens ++ opening.1 :: beforeTokens Arguments.tokens before
  | key target opening => target.tokens ++ [opening.1]
  | entry opening before name colon =>
    opening.1 :: beforeTokens Entries.tokens before ++ [name.1, colon.1]

/-- The tokens of what was read last. -/
@[simp] def Stage.tokens : Stage → List Token
  | operand => []
  | behind c => c.tokens
  | member target dot => target.tokens ++ [dot.1]
  | entryName opening before => opening.1 :: beforeTokens Entries.tokens before
  | colon opening before name => opening.1 :: beforeTokens Entries.tokens before ++ [name.1]

/-- The tokens in front of the innermost bracket, and its own. -/
@[simp] def outerTokens : List (Opening × Pending) → List Token
  | [] => []
  | (opening, p) :: rest => outerTokens rest ++ p.tokens ++ opening.tokens

/-- **The tokens of a derivation in the making.** -/
@[simp] def Partial.tokens (s : Partial) : List Token :=
  outerTokens s.outer ++ s.pending.tokens ++ s.stage.tokens

@[simp] theorem Unary.tokens_signed (u : Unary) (signs : List (Terminal [.minus])) :
    (Unary.signed u signs).tokens = (signs.map Subtype.val).reverse ++ u.tokens := by
  induction signs generalizing u with
  | nil => rfl
  | cons sign rest ih => simp [signed, ih]

@[simp] theorem Pending.tokens_sum (p : Pending) (c : Chain) :
    (p.sum c).tokens = (match p.term with
      | none => []
      | some (left, sign) => left.tokens ++ [sign.1]) ++ (p.signs.map Subtype.val).reverse ++
        c.tokens := by
  rw [sum]
  split <;> simp [*]

@[simp] theorem Pending.tokens_expression (p : Pending) (c : Chain) :
    (p.expression c).tokens = p.tokens ++ c.tokens := by
  rw [expression, Pending.tokens]
  split <;> simp

@[simp] theorem Caller.tokens_chain (caller : Caller) (opening : Terminal [.leftParen])
    (arguments : OptionalArguments) (closing : Terminal [.rightParen]) :
    (caller.chain opening arguments closing).tokens =
      caller.tokens ++ opening.1 :: arguments.tokens ++ [closing.1] := by
  cases caller <;> simp [chain, tokens]

@[simp] theorem Arguments.tokens_add (e : Expression)
    (before : Option (Arguments × Terminal [.comma])) :
    (Arguments.add e before).tokens = beforeTokens Arguments.tokens before ++ e.tokens := by
  rcases before with _ | ⟨before, comma⟩ <;> simp [add]

@[simp] theorem Entries.tokens_add (e : NamedExpression)
    (before : Option (Entries × Terminal [.comma])) :
    (Entries.add e before).tokens = beforeTokens Entries.tokens before ++ e.tokens := by
  rcases before with _ | ⟨before, comma⟩ <;> simp [add]

theorem Chain.tokens_of_caller? {c : Chain} {caller : Caller} (h : c.caller? = some caller) :
    caller.tokens = c.tokens := by
  rw [caller?.eq_def] at h
  split at h
  all_goals cases h
  all_goals rfl

namespace Partial

theorem tokens_stepOperand {s s' : Partial} {t : Token} (hs : s.stage = .operand)
    (h : s.stepOperand t = some s') : s'.tokens = s.tokens ++ [t] := by
  have hnothing : s.pending.isNothing = true → s.pending = {} := Pending.eq_of_isNothing
  rw [stepOperand.eq_def] at h
  split at h
  all_goals try split at h
  all_goals cases h
  all_goals simp_all

theorem tokens_stepBehind {s s' : Partial} {c : Chain} {t : Token} (hs : s.stage = .behind c)
    (h : s.stepBehind c t = some s') : s'.tokens = s.tokens ++ [t] := by
  rw [stepBehind.eq_def] at h
  split at h
  case h_3 =>
    obtain ⟨caller, hcaller, rfl⟩ := Option.map_eq_some_iff.mp h
    simp [hs, Chain.tokens_of_caller? hcaller]
  all_goals try split at h
  all_goals cases h
  all_goals simp [*]

/-- **A move takes its token**: the tokens of the derivation grow by it, and by nothing else. -/
theorem tokens_step {s s' : Partial} {t : Token} (h : s.step t = some s') :
    s'.tokens = s.tokens ++ [t] := by
  rw [step.eq_def] at h
  split at h
  case h_1 hs => exact tokens_stepOperand hs h
  case h_2 c hs => exact tokens_stepBehind hs h
  all_goals split at h
  all_goals try split at h
  all_goals try split at h
  all_goals cases h
  all_goals simp [*]

end Partial

/-! ### What is forgotten -/

/-- What arguments are given to, as the machine keeps it. -/
def Caller.callee : Caller → Callee
  | function name => .function name.1.text
  | method target _ name => .method target.expr name.1.text

/-- The trees up to a comma, the last first. -/
def beforeItems : Option (Arguments × Terminal [.comma]) → List Expr
  | none => []
  | some (before, _) => before.exprs.reverse

/-- The named trees up to a comma, the last first. -/
def beforeEntries : Option (Entries × Terminal [.comma]) → List (Entry Expr)
  | none => []
  | some (before, _) => before.exprs.reverse

/-- The frame of an open bracket. -/
def Opening.frame : Opening → Frame
  | group _ => .group
  | array _ before => .array (beforeItems before)
  | arguments caller _ before => .arguments caller.callee (beforeItems before)
  | key target _ => .key target.expr
  | entry _ before name _ => .entry (beforeEntries before) name.1.text

namespace Pending

/-- The frame of the left side of a comparison. -/
def sideFrames (p : Pending) : List Frame :=
  match p.side with
  | none => []
  | some (left, sign) => [.side left.expr (comparisonOf sign.1)]

/-- The frame of the terms of a sum. -/
def termFrames (p : Pending) : List Frame :=
  match p.term with
  | none => []
  | some (left, sign) => [.term left.expr (signOf sign.1)]

/-- The frames of what waits. -/
def frames (p : Pending) : List Frame :=
  p.signs.map (fun _ => .negation) ++ (p.termFrames ++ p.sideFrames)

end Pending

/-- The frames up to the innermost bracket. -/
def stackOf : List (Opening × Pending) → List Frame
  | [] => []
  | (opening, p) :: rest => opening.frame :: (p.frames ++ stackOf rest)

/-- Whether the bracket of a list stands open with nothing in it. -/
def Opening.isFresh : Opening → Bool
  | array _ none | arguments _ _ none => true
  | _ => false

/-- Whether what was read last is the opening bracket of a list. -/
def Partial.isOpened (s : Partial) : Bool :=
  s.pending.isNothing && match s.outer with
    | [] => false
    | (opening, _) :: _ => opening.isFresh

/-- What can come next. -/
def Partial.mode (s : Partial) : Mode :=
  match s.stage with
  | .operand => .operand s.isOpened
  | .behind c => .behind c.expr (c.caller?.map Caller.callee)
  | .member target _ => .member target.expr
  | .entryName _ before => .entryName (beforeEntries before) before.isNone
  | .colon _ before name => .colon (beforeEntries before) name.1.text

/-- **What the machine keeps** of a derivation in the making. -/
def Partial.state (s : Partial) : State := ⟨s.pending.frames ++ stackOf s.outer, s.mode⟩

theorem closeSum_negations (signs : List (Terminal [.minus])) (stack : List Frame) (u : Unary) :
    State.closeSum (signs.map (fun _ => .negation) ++ stack) u.expr =
      State.closeSum stack (u.signed signs).expr := by
  induction signs generalizing u with
  | nil => rfl
  | cons sign rest ih => exact ih (.negation sign u)

/-- Brackets and comparisons do not bind tighter than a sum. -/
theorem closeSum_sideFrames (p : Pending) (outer : List (Opening × Pending)) (v : Expr) :
    State.closeSum (p.sideFrames ++ stackOf outer) v = (p.sideFrames ++ stackOf outer, v) := by
  rw [Pending.sideFrames]
  split
  · rcases outer with _ | ⟨⟨opening, q⟩, rest⟩
    · rfl
    · cases opening <;> rfl
  · rfl

/-- An operand completes what waits to a sum. -/
theorem closeSum_frames (p : Pending) (outer : List (Opening × Pending)) (c : Chain) :
    State.closeSum (p.frames ++ stackOf outer) c.expr =
      (p.sideFrames ++ stackOf outer, (p.sum c).expr) := by
  have hnegations := closeSum_negations p.signs (p.termFrames ++ (p.sideFrames ++ stackOf outer))
    (.chain c)
  rw [Pending.frames, List.append_assoc, List.append_assoc]
  refine hnegations.trans ?_
  rw [Pending.termFrames, Pending.sum]
  split
  · exact closeSum_sideFrames p outer _
  · exact closeSum_sideFrames p outer _

/-- An operand completes what waits to an expression. -/
theorem closeAll_frames (p : Pending) (outer : List (Opening × Pending)) (c : Chain) :
    State.closeAll (p.frames ++ stackOf outer) c.expr =
      (stackOf outer, (p.expression c).expr) := by
  rw [State.closeAll, closeSum_frames, Pending.sideFrames, Pending.expression]
  rcases p.side with _ | ⟨left, sign⟩
  · rcases outer with _ | ⟨⟨opening, q⟩, rest⟩
    · rfl
    · cases opening <;> rfl
  · rfl

@[simp] theorem Caller.expr_chain (caller : Caller) (opening : Terminal [.leftParen])
    (arguments : OptionalArguments) (closing : Terminal [.rightParen]) :
    (caller.chain opening arguments closing).expr = caller.callee.apply arguments.exprs := by
  cases caller <;> rfl

@[simp] theorem Caller.caller?_chain (caller : Caller) (opening : Terminal [.leftParen])
    (arguments : OptionalArguments) (closing : Terminal [.rightParen]) :
    (caller.chain opening arguments closing).caller? = none := by
  cases caller <;> rfl

@[simp] theorem Arguments.exprs_add (e : Expression)
    (before : Option (Arguments × Terminal [.comma])) :
    (Arguments.add e before).exprs = (e.expr :: beforeItems before).reverse := by
  rcases before with _ | ⟨before, comma⟩ <;> simp [add, beforeItems]

@[simp] theorem Entries.exprs_add (e : NamedExpression)
    (before : Option (Entries × Terminal [.comma])) :
    (Entries.add e before).exprs = (e.entry :: beforeEntries before).reverse := by
  rcases before with _ | ⟨before, comma⟩ <;> simp [add, beforeEntries]

theorem Pending.frames_of_isNothing {p : Pending} (h : p.isNothing = true) : p.frames = [] := by
  rw [eq_of_isNothing h]
  rfl

namespace Partial

theorem state_stepOperand (s : Partial) (t : Token) :
    State.stepOperand (s.pending.frames ++ stackOf s.outer) s.isOpened t =
      (s.stepOperand t).map state := by
  obtain ⟨outer, pending, stage⟩ := s
  obtain ⟨kind, text, position, offset⟩ := t
  have hframes : pending.isNothing = true → pending.frames = [] := Pending.frames_of_isNothing
  cases kind with
  | minus =>
    simp [State.stepOperand, stepOperand, state, mode, isOpened, Pending.isNothing,
      Pending.frames, Pending.termFrames, Pending.sideFrames]
  | rightParen =>
    simp only [State.stepOperand, stepOperand, isOpened]
    cases hp : pending.isNothing with
    | false => rfl
    | true =>
      rw [hframes hp]
      rcases outer with _ | ⟨⟨opening, p⟩, rest⟩
      · rfl
      · rcases opening with _ | ⟨opening, _ | before⟩ | ⟨caller, opening, _ | before⟩ | _ | _
        case arguments.none =>
          simp [stackOf, Opening.frame, Opening.isFresh, beforeItems, State.done, state, mode]
        all_goals rfl
  | rightBracket =>
    simp only [State.stepOperand, stepOperand, isOpened]
    cases hp : pending.isNothing with
    | false => rfl
    | true =>
      rw [hframes hp]
      rcases outer with _ | ⟨⟨opening, p⟩, rest⟩
      · rfl
      · rcases opening with _ | ⟨opening, _ | before⟩ | ⟨caller, opening, _ | before⟩ | _ | _
        all_goals rfl
  | _ => rfl

theorem state_stepBehind (s : Partial) (c : Chain) (t : Token) :
    State.stepBehind (s.pending.frames ++ stackOf s.outer) c.expr (c.caller?.map Caller.callee) t =
      (s.stepBehind c t).map state := by
  obtain ⟨outer, pending, stage⟩ := s
  obtain ⟨kind, text, position, offset⟩ := t
  have hsum := closeSum_frames pending outer c
  have hall := closeAll_frames pending outer c
  cases kind with
  | leftParen =>
    simp only [State.stepBehind, stepBehind]
    cases c.caller? <;> rfl
  | plus | minus =>
    simp only [State.stepBehind, stepBehind, hsum]
    cases hside : pending.side <;>
      simp [Pending.sideFrames, hside, state, Pending.frames, Pending.termFrames, mode, isOpened,
        Pending.isNothing, signOf]
  | equal | notEqual =>
    simp only [State.stepBehind, stepBehind, hsum, Pending.sideFrames]
    cases pending.side with
    | none =>
      rcases outer with _ | ⟨⟨opening, p⟩, rest⟩
      · rfl
      · cases opening <;> rfl
    | some side => rfl
  | rightParen =>
    simp only [State.stepBehind, stepBehind, hall]
    rcases outer with _ | ⟨⟨opening, p⟩, rest⟩
    · rfl
    · cases opening with
      | arguments caller opening before => simp [stackOf, Opening.frame, State.done, state, mode]
      | _ => rfl
  | rightBracket =>
    simp only [State.stepBehind, stepBehind, hall]
    rcases outer with _ | ⟨⟨opening, p⟩, rest⟩
    · rfl
    · cases opening with
      | array opening before =>
        simp [stackOf, Opening.frame, State.done, state, mode, Chain.caller?]
      | _ => rfl
  | rightBrace =>
    simp only [State.stepBehind, stepBehind, hall]
    rcases outer with _ | ⟨⟨opening, p⟩, rest⟩
    · rfl
    · cases opening with
      | entry opening before name colon =>
        simp [stackOf, Opening.frame, State.done, state, mode, Chain.caller?]
      | _ => rfl
  | comma =>
    simp only [State.stepBehind, stepBehind, hall]
    rcases outer with _ | ⟨⟨opening, p⟩, rest⟩
    · rfl
    · cases opening with
      | array opening before | arguments caller opening before =>
        simp [stackOf, Opening.frame, state, mode, isOpened, Opening.isFresh, Pending.frames,
          beforeItems, Pending.sideFrames, Pending.termFrames]
      | entry opening before name colon =>
        simp [stackOf, Opening.frame, state, mode, Pending.frames, beforeEntries,
          Pending.sideFrames, Pending.termFrames]
      | _ => rfl
  | _ => rfl

/-- **Forgetting goes along with the moves.** -/
theorem state_step (s : Partial) (t : Token) : s.state.step t = (s.step t).map state := by
  obtain ⟨outer, pending, stage⟩ := s
  cases stage with
  | operand => exact state_stepOperand _ t
  | behind c => exact state_stepBehind _ c t
  | member target dot =>
    obtain ⟨kind, text, position, offset⟩ := t
    cases kind <;> rfl
  | entryName opening before =>
    obtain ⟨kind, text, position, offset⟩ := t
    rcases before with _ | ⟨before, comma⟩ <;> cases kind <;> rfl
  | colon opening before name =>
    obtain ⟨kind, text, position, offset⟩ := t
    cases kind <;> rfl

/-- Forgetting goes along with the end. -/
theorem state_result? (s : Partial) : s.state.result? = s.result?.map Expression.expr := by
  obtain ⟨outer, pending, stage⟩ := s
  cases stage with
  | behind c =>
    simp only [state, mode, State.result?, closeAll_frames, result?]
    rcases outer with _ | ⟨⟨opening, p⟩, rest⟩ <;> rfl
  | _ => rfl

/-- What comes out derives all of the tokens. -/
theorem tokens_of_result? {s : Partial} {e : Expression} (h : s.result? = some e) :
    e.tokens = s.tokens := by
  obtain ⟨outer, pending, stage⟩ := s
  rcases stage with _ | c | _ | _ | _
  case behind =>
    rcases outer with _ | ⟨opening, rest⟩ <;> cases h
    simp
  all_goals cases h

end Partial

end TypedMemory.Grammar
