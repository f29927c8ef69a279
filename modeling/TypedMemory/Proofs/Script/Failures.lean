import TypedMemory.Proofs.Codec.Failures
import TypedMemory.Script.Eval

/-!
# How the evaluation of an expression fails

Evaluation fails in many ways: in the functions and operators of scripts, in showing a value, in
reading and in writing memory. Whatever it meets, it tells as a failure that is one of this
library's own, and never as one of parsing (`TypedMemory.Expr.failsOnly_eval`). The first half holds
by what is done with a failure at each rule, the second because nothing that a rule calls fails to
parse.
-/

namespace TypedMemory

open Effect

/-- The failure is one of this library's own, but not one of parsing. -/
def Error.IsOwnBehindParsing (e : Error) : Prop := e.isOwn = true ∧ e.isParse = false

/-! ### Functions and operators -/

theorem NoParse.refuse {α : Type} (cause : EvaluationCause) :
    NoParse (Value.refuse cause : Except Error α) := fail rfl

namespace Value

variable [Host]

theorem noParse_expectInt (what : Text) (v : Value) : NoParse (v.expectInt what) := by
  cases v with
  | int n => exact .ok n
  | _ => exact .refuse _

theorem noParse_expectCount (what : Text) (v : Value) : NoParse (v.expectCount what) := by
  refine (noParse_expectInt what v).bind fun n => ?_
  split
  · exact .refuse _
  · exact .ok _

theorem noParse_expectLayout (what : Text) (v : Value) : NoParse (v.expectLayout what) := by
  cases v with
  | type l => exact .ok l
  | _ => exact .refuse _

theorem noParse_expectLocation (what : Text) (v : Value) : NoParse (v.expectLocation what) := by
  rw [expectLocation.eq_def]
  split
  · exact .ok _
  · exact .ok _
  · exact .ok _
  · exact .refuse _

theorem Unary.noParse_apply (f : Unary) (v : Value) : NoParse (f.apply v) := by
  cases f with
  | address => exact (noParse_expectInt _ v).bind fun n => .ok _
  | text => exact (noParse_expectCount _ v).bind fun length => .ok _
  | wideText => exact (noParse_expectCount _ v).bind fun length => .ok _
  | pointerType width => exact (noParse_expectLayout _ v).bind fun inner => .ok _
  | struct =>
    cases v with
    | type l =>
      cases l with
      | struct fields => exact .ok _
      | _ => exact .refuse _
    | _ => exact .refuse _
  | size =>
    exact (noParse_expectLayout _ v).bind fun l => l.noParse_size?.bind fun size => .ok _
  | toText => exact (noParse_toText v).map

theorem Binary.noParse_apply (f : Binary) (v w : Value) : NoParse (f.apply v w) := by
  cases f with
  | pointer =>
    exact (noParse_expectLayout _ v).bind fun target =>
      (noParse_expectLocation _ w).bind fun location => .ok _
  | collection =>
    exact (noParse_expectLayout _ v).bind fun element =>
      (noParse_expectCount _ w).bind fun count => .ok _

theorem noParse_call (name : Text) (arguments : List Value) : NoParse (call name arguments) := by
  rw [call]
  split
  · exact .refuse _
  · split
    · exact Unary.noParse_apply _ _
    · exact .refuse _
  · split
    · exact Binary.noParse_apply _ _ _
    · exact .refuse _

theorem noParse_member (v : Value) (name : Text) : NoParse (v.member name) := by
  rw [member.eq_def]
  split
  · split
    · exact .ok _
    · exact .refuse _
  · split
    · exact .ok _
    · split
      · exact .ok _
      · exact .refuse _
  · split
    · exact .ok _
    · exact .refuse _
  · rw [layoutMember]
    split
    · exact ((Layout.noParse_size? _).bind fun n => .ok _).map
    · split
      · exact .ok _
      · split
        · exact .ok _
        · exact .refuse _
  · exact .refuse _

theorem noParse_part (v key : Value) : NoParse (v.part key) := by
  rw [part.eq_def]
  split
  · refine (noParse_expectInt _ key).bind fun index => ?_
    rw [item]
    split
    · exact .ok _
    · exact .refuse _
  · rw [entry.eq_def]
    split
    · split
      · exact .ok _
      · exact .refuse _
    · split
      · exact (noParse_shown _).bind fun shown => .refuse _
      · exact .error rfl
  · exact .refuse _

theorem noParse_negate (v : Value) : NoParse v.negate := by
  rw [negate.eq_def]
  split
  · exact .ok _
  · exact .ok _
  · exact .refuse _

omit [Host] in
theorem noParse_toFloat (n : Int) : NoParse (toFloat n) := by
  rw [toFloat]
  split
  · exact .ok _
  · exact .error rfl

omit [Host] in
theorem noParse_plus (v w : Value) : NoParse (v.plus w) := by
  rw [plus.eq_def]
  split
  · split
    · exact .ok _
    · exact .error rfl
  · exact .error rfl

theorem noParse_add (v w : Value) : NoParse (v.add w) := by
  rw [add.eq_def]
  split
  · exact noParse_plus _ _
  · exact noParse_plus _ _
  · exact .ok _
  · exact (noParse_toFloat _).bind fun x => .ok _
  · exact (noParse_toFloat _).bind fun x => .ok _
  · exact .ok _
  · exact .ok _
  · exact .ok _
  · exact .refuse _

theorem noParse_sub (v w : Value) : NoParse (v.sub w) := by
  rw [sub.eq_def]
  split
  · exact .ok _
  · exact (noParse_toFloat _).bind fun x => .ok _
  · exact (noParse_toFloat _).bind fun x => .ok _
  · exact .ok _
  · exact .refuse _

end Value

/-! ### Evaluation -/

namespace Run

variable {α : Type} {P : Error → Prop}

theorem failsOnly_lift {r : Except Error α} (h : ∀ e, r = .error e → P e) :
    FailsOnly P (Run.lift r) := by
  intro m e m' hm
  exact h e (congrArg Prod.fst hm)

theorem failsOnly_note (events : List Log.Event) : FailsOnly P (Run.note events) := by
  intro m e m' hm
  cases hm

/-- At a rule every failure becomes one of this library's own. -/
theorem failsOnly_atRule (rule : Text) {x : Run α} (h : FailsOnly (fun e => e.isParse = false) x) :
    FailsOnly Error.IsOwnBehindParsing (Run.atRule rule x) := by
  intro m e m' hm
  rw [atRule] at hm
  split at hm
  · next e' m₁ hx =>
    cases hm
    by_cases hown : e'.isOwn = true
    · rw [if_pos hown]
      exact ⟨hown, h m e' _ hx⟩
    · rw [if_neg hown]
      exact ⟨rfl, rfl⟩
  · next hok => exact absurd hm (hok _ _)

end Run

namespace Expr

variable [Host] {options : Options} {s : Scope}

theorem neverParses_callMethod (target : Value) (name : Text) (arguments : List Value) :
    FailsOnly (fun e => e.isParse = false) (callMethod options target name arguments) := by
  have hread : ∀ l location,
      FailsOnly (fun e => e.isParse = false) (readMemory options l location) := by
    intro l location m e m' h
    exact Codec.noParse_read l location e (congrArg Prod.fst h)
  have hwrite : ∀ l location v,
      FailsOnly (fun e => e.isParse = false) (writeMemory options l location v) := by
    intro l location v
    refine FailsOnly.bind (fun m e m' h => ?_) fun _ => failsOnly_pure
    have hfailed : (Codec.write options l (.address location) v m.memory).1 = .error e :=
      congrArg Prod.fst h
    exact Codec.neverParses_write l (.address location) v m.memory e _ (Prod.ext hfailed rfl)
  have hrefuse : ∀ cause : EvaluationCause,
      FailsOnly (fun e => e.isParse = false) (Run.lift (Value.refuse cause) : Run Value) :=
    fun cause => Run.failsOnly_lift (NoParse.refuse cause)
  rw [callMethod.eq_def]
  split
  · split
    · rw [readMethod.eq_def]
      split
      · exact hread _ _
      · exact (Run.failsOnly_lift (Value.noParse_expectLocation _ _)).bind fun location =>
          hread _ location
      · exact hrefuse _
    · split
      · rw [writeMethod.eq_def]
        split
        · exact hwrite _ _ _
        · exact (Run.failsOnly_lift (Value.noParse_expectLocation _ _)).bind fun location =>
            hwrite _ location _
        · exact hrefuse _
      · exact hrefuse _
  · exact hrefuse _

omit [Host] in
theorem noParse_variableValue (s : Scope) (name : Text) : NoParse (variableValue s name) := by
  rw [variableValue]
  repeat' split
  all_goals first | exact .ok _ | exact .refuse _

omit [Host] in
theorem noParse_integerValue (digits : Text) : NoParse (integerValue digits) := by
  rw [integerValue]
  split
  · exact .ok _
  · exact .error rfl

theorem noParse_stringValue (literal : Text) : NoParse (stringValue literal) := by
  rw [stringValue]
  split
  · exact .ok _
  all_goals exact .error rfl

omit [Host] in
/-- What a rule does with a result fails in the library's own way. -/
theorem failsOnly_atRule_lift (rule : Text) {r : Except Error Value} (h : NoParse r) :
    FailsOnly Error.IsOwnBehindParsing (Run.atRule rule (Run.lift r)) :=
  Run.failsOnly_atRule rule (Run.failsOnly_lift h)

mutual

/-- **Evaluation fails in the library's own ways**, and never as a script does that does not
parse. -/
theorem failsOnly_eval (e : Expr) : FailsOnly Error.IsOwnBehindParsing (e.eval options s) := by
  match e with
  | .var name => exact failsOnly_atRule_lift _ (noParse_variableValue s name)
  | .integer digits => exact failsOnly_atRule_lift _ (noParse_integerValue digits)
  | .hexNumber _ | .decimal _ | .bool _ => exact failsOnly_pure
  | .string literal => exact failsOnly_atRule_lift _ (noParse_stringValue literal)
  | .record entries => exact (failsOnly_evalEntries entries).bind fun _ => failsOnly_pure
  | .array items => exact (failsOnly_evalItems items).bind fun _ => failsOnly_pure
  | .call name arguments =>
    exact (failsOnly_evalItems arguments).bind fun values =>
      failsOnly_atRule_lift _ (Value.noParse_call name values)
  | .member target name =>
    exact (failsOnly_eval target).bind fun v => failsOnly_atRule_lift _ (v.noParse_member name)
  | .methodCall target name arguments =>
    exact (failsOnly_eval target).bind fun v => (failsOnly_evalItems arguments).bind fun values =>
      Run.failsOnly_atRule _ (neverParses_callMethod v name values)
  | .index target key =>
    exact (failsOnly_eval target).bind fun v => (failsOnly_eval key).bind fun k =>
      failsOnly_atRule_lift _ (v.noParse_part k)
  | .neg operand =>
    exact (failsOnly_eval operand).bind fun v => failsOnly_atRule_lift _ v.noParse_negate
  | .add left right =>
    exact (failsOnly_eval left).bind fun v => (failsOnly_eval right).bind fun w =>
      failsOnly_atRule_lift _ (v.noParse_add w)
  | .sub left right =>
    exact (failsOnly_eval left).bind fun v => (failsOnly_eval right).bind fun w =>
      failsOnly_atRule_lift _ (v.noParse_sub w)
  | .eq left right | .ne left right =>
    exact (failsOnly_eval left).bind fun v => (failsOnly_eval right).bind fun w => failsOnly_pure

theorem failsOnly_evalItems (items : List Expr) :
    FailsOnly Error.IsOwnBehindParsing (eval.evalItems options s items) := by
  match items with
  | [] => exact failsOnly_pure
  | e :: rest =>
    exact (failsOnly_eval e).bind fun v => (failsOnly_evalItems rest).bind fun vs => failsOnly_pure

theorem failsOnly_evalEntries (entries : List (Entry Expr)) :
    FailsOnly Error.IsOwnBehindParsing (eval.evalEntries options s entries) := by
  match entries with
  | [] => exact failsOnly_pure
  | ⟨_, e⟩ :: rest =>
    exact (failsOnly_eval e).bind fun v =>
      (failsOnly_evalEntries rest).bind fun vs => failsOnly_pure

end

end Expr

end TypedMemory
