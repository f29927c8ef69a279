import TypedMemory.Proofs.Struct
import TypedMemory.Proofs.Value
import TypedMemory.Script.Native

/-!
# What becomes of the names of a scope

Scripts run one after another, each in the scope that the one before has left. In all that time no
name is lost and none changes its place, and a constant stays a constant. It also keeps its
value, as long as no declaration has its name (`TypedMemory.Scope.Follows`).

This is told of a pair of scopes and of the names that are declared on the way from the one to the
other, and so it can be chained: a statement is a link
(`TypedMemory.Engine.follows_execute`), then statements one behind the other are, then scripts
(`TypedMemory.Engine.follows_of_runs`).
-/

namespace TypedMemory

open Effect

/-! ### Scopes one after another -/

namespace Scope

variable {s s' s'' : Scope} {declared declared' : Text → Prop}

/-- Every constant is bound. -/
def ConstantsBound (s : Scope) : Prop := ∀ name ∈ s.constants, name ∈ s.names

/-- The name is bound to a struct. -/
def HasStruct (s : Scope) (name : Text) : Prop :=
  ∃ fields, s.get? name = some (.type (.struct fields))

/-- **One scope follows another**, with these names declared on the way: names are only added, and
at the end; constants stay constants, and each has its value or has been declared to be a struct;
and what has become a constant has been declared to be a struct. -/
structure Follows (declared : Text → Prop) (s s' : Scope) : Prop where
  names : s.names <+: s'.names
  constant : ∀ name ∈ s.constants, name ∈ s'.constants
  kept : ∀ name ∈ s.constants, s'.get? name = s.get? name ∨ declared name ∧ s'.HasStruct name
  added : ∀ name ∈ s'.constants, name ∈ s.constants ∨ declared name ∧ s'.HasStruct name

namespace Follows

theorem refl (declared : Text → Prop) (s : Scope) : Follows declared s s :=
  ⟨List.prefix_refl _, fun _ h => h, fun _ _ => .inl rfl, fun _ h => .inl h⟩

theorem mono (h : Follows declared s s') (hd : ∀ name, declared name → declared' name) :
    Follows declared' s s' :=
  ⟨h.names, h.constant, fun name hname => (h.kept name hname).imp_right (.imp_left (hd name)),
    fun name hname => (h.added name hname).imp_right (.imp_left (hd name))⟩

/-- What was a struct as a constant is one still. -/
theorem hasStruct (h : Follows declared s s') {name : Text} (hname : name ∈ s.constants)
    (hstruct : s.HasStruct name) : s'.HasStruct name := by
  rcases h.kept name hname with heq | ⟨-, hstruct'⟩
  · obtain ⟨fields, hget⟩ := hstruct
    exact ⟨fields, heq.trans hget⟩
  · exact hstruct'

theorem trans (h : Follows declared s s') (h' : Follows declared s' s'') :
    Follows declared s s'' := by
  refine ⟨h.names.trans h'.names, fun name hname => h'.constant name (h.constant name hname),
    fun name hname => ?_, fun name hname => ?_⟩
  · have hname' := h.constant name hname
    rcases h'.kept name hname' with heq | hdeclared
    · rcases h.kept name hname with heq' | ⟨hd, hstruct⟩
      · exact .inl (heq.trans heq')
      · exact .inr ⟨hd, h'.hasStruct hname' hstruct⟩
    · exact .inr hdeclared
  · rcases h'.added name hname with hname' | hdeclared
    · exact (h.added name hname').imp_right fun ⟨hd, hstruct⟩ => ⟨hd, h'.hasStruct hname' hstruct⟩
    · exact .inr hdeclared

end Follows

/-! ### Binding -/

theorem get?_bind (s : Scope) (name other : Text) (v : Value) :
    (s.bind name v).get? other =
      if name = other then some (v.tagged s.nextTag).1 else s.get? other :=
  Value.lookup?_bind s.bindings name other _

/-- Binding adds a name at the end, if any. -/
theorem names_prefix_bind (s : Scope) (name : Text) (v : Value) :
    s.names <+: (s.bind name v).names := by
  have hnames : (s.bind name v).names = s.names ++ if name ∈ s.names then [] else [name] :=
    Value.map_name_bind s.bindings name _
  rw [hnames]
  exact List.prefix_append _ _

/-- A struct is one with its tags too. -/
theorem hasStruct_bind (s : Scope) (name : Text) (fields : List (Field Layout)) :
    (s.bind name (.type (.struct fields))).HasStruct name :=
  ⟨_, by rw [get?_bind, if_pos rfl]; rfl⟩

theorem withVariable_of_constant {name : Text} (h : name ∈ s.constants) (v : Value) :
    s.withVariable name v = .error (.evaluation (.constant name)) := by
  rw [withVariable, isConstant, if_pos (List.contains_iff_mem.mpr h)]
  rfl

/-- **A variable** is no constant, so no constant changes. -/
theorem follows_withVariable {name : Text} {v : Value} (h : s.withVariable name v = .ok s') :
    Follows declared s s' := by
  by_cases hname : name ∈ s.constants
  · rw [withVariable_of_constant hname] at h
    cases h
  · rw [withVariable, isConstant, if_neg (by simpa using hname)] at h
    cases h
    refine ⟨names_prefix_bind s name v, fun _ h => h, fun other hother => .inl ?_,
      fun _ h => .inl h⟩
    rw [get?_bind, if_neg]
    rintro rfl
    exact hname hother

/-- **A declared name** is bound to a struct, and all other constants stay. -/
theorem follows_withConstant {name : Text} (hd : declared name) (fields : List (Field Layout)) :
    Follows declared s (s.withConstant name (.type (.struct fields))) := by
  have hstruct : (s.withConstant name (.type (.struct fields))).HasStruct name :=
    hasStruct_bind s name fields
  have hget : ∀ other, name ≠ other →
      (s.withConstant name (.type (.struct fields))).get? other = s.get? other := fun other hne =>
    (get?_bind s name other (.type (.struct fields))).trans (if_neg hne)
  have hconstants : ∀ other, other ∈ (s.withConstant name (.type (.struct fields))).constants ↔
      other = name ∨ other ∈ s.constants := by
    intro other
    rw [withConstant]
    dsimp only
    split
    case isTrue h =>
      refine (or_iff_right_of_imp ?_).symm
      rintro rfl
      exact List.contains_iff_mem.mp h
    case isFalse => exact List.mem_cons
  refine ⟨names_prefix_bind s name (.type (.struct fields)),
    fun other hother => (hconstants other).mpr (.inr hother), fun other hother => ?_,
    fun other hother => ?_⟩
  · by_cases hne : name = other
    · subst hne
      exact .inr ⟨hd, hstruct⟩
    · exact .inl (hget other hne)
  · rcases (hconstants other).mp hother with rfl | hother
    · exact .inr ⟨hd, hstruct⟩
    · exact .inl hother

theorem HasStruct.mem_names {name : Text} (h : s.HasStruct name) : name ∈ s.names := by
  obtain ⟨fields, hget⟩ := h
  obtain ⟨e, he, -⟩ := Option.map_eq_some_iff.mp hget
  have hname : e.name = name := by simpa using List.find?_some he
  exact List.mem_map.mpr ⟨e, List.mem_of_find?_eq_some he, hname⟩

/-- Constants stay bound, old ones and new ones. -/
theorem Follows.constantsBound (h : Follows declared s s') (hs : s.ConstantsBound) :
    s'.ConstantsBound := by
  intro name hname
  rcases h.added name hname with hname | ⟨-, hstruct⟩
  · exact h.names.subset (hs name hname)
  · exact hstruct.mem_names

end Scope

/-! ### Statements -/

/-- The statement is a declaration of the name. -/
def Statement.Declares : Statement → Text → Prop
  | .custom keyword (first :: _), name => keyword = Native.keyword ∧ first.text = name
  | _, _ => False

/-- A declaration binds its name to a struct, as a constant. -/
theorem Native.exists_of_declare [Host] {options : Options} {s : Scope} {pieces : List Piece}
    {m m' : Machine} {r : Value × Scope} (h : declare options s pieces m = (.ok r, m')) :
    ∃ first rest fields, pieces = first :: rest ∧
      r.2 = s.withConstant first.text (.type (.struct fields)) := by
  obtain ⟨⟨name, list⟩, m₁, hitems, h⟩ := exists_of_bind_ok h
  obtain ⟨l, m₂, hcompile, h⟩ := exists_of_bind_ok h
  obtain ⟨size, m₃, -, h⟩ := exists_of_bind_ok h
  obtain ⟨-, m₄, -, h⟩ := exists_of_bind_ok h
  obtain ⟨-, m₅, -, h⟩ := exists_of_bind_ok h
  cases h
  obtain ⟨b, m₆, -, hbuild⟩ := exists_of_bind_ok hcompile
  obtain ⟨fields, rfl⟩ : ∃ fields, l = .struct fields := by
    have hbuild : b.build = .ok l := congrArg Prod.fst hbuild
    obtain ⟨-, rfl⟩ := Layout.exists_of_ofArranged hbuild
    exact ⟨_, rfl⟩
  cases pieces with
  | nil => cases hitems
  | cons first rest =>
    have hitems : items (first :: rest) = .ok (name, list) := congrArg Prod.fst hitems
    obtain ⟨found, -, hfound⟩ := exists_of_bind_eq_ok hitems
    split at hfound
    · cases hfound
    · cases hfound
      exact ⟨first, rest, fields, rfl, rfl⟩

namespace Engine

section Runs

variable [Host] {options : Options} {s s' : Scope} {m m' : Machine}

/-- A statement of a form that the engine does not have does nothing. -/
theorem execute_custom_of_ne (s : Scope) {keyword : Text} (h : keyword ≠ Native.keyword)
    (pieces : List Piece) :
    (standard options).execute s (.custom keyword pieces) = pure (.unit, s) := by
  have hfind : (standard options).syntaxes.find? (fun c => c.keyword = keyword) = none :=
    List.find?_eq_none.mpr fun c hc => by
      rw [List.mem_singleton.mp hc]
      exact fun heq => h (of_decide_eq_true heq).symm
  rw [execute, hfind]

/-- **A statement is a link** in the chain of scopes. -/
theorem follows_execute {st : Statement} {r : Value × Scope}
    (h : (standard options).execute s st m = (.ok r, m')) : Scope.Follows st.Declares s r.2 := by
  cases st with
  | binding name value =>
    obtain ⟨v, m₁, -, h⟩ := exists_of_bind_ok h
    obtain ⟨-, m₂, -, h⟩ := exists_of_bind_ok h
    obtain ⟨s₁, m₃, hbind, h⟩ := exists_of_bind_ok h
    cases h
    have hbind : s.withVariable name v = .ok s₁ := congrArg Prod.fst hbind
    exact Scope.follows_withVariable hbind
  | expression value =>
    obtain ⟨v, m₁, -, h⟩ := exists_of_bind_ok h
    cases h
    exact .refl _ s
  | custom keyword pieces =>
    by_cases hkeyword : keyword = Native.keyword
    · subst hkeyword
      obtain ⟨first, rest, fields, rfl, hscope⟩ := Native.exists_of_declare h
      rw [hscope]
      exact Scope.follows_withConstant ⟨rfl, rfl⟩ fields
    · rw [execute_custom_of_ne s hkeyword] at h
      cases h
      exact .refl _ s

/-- Statements one after another. -/
theorem follows_executeAll {statements : List Statement} {v : Value} {r : Value × Scope}
    (h : (standard options).executeAll v s statements m = (.ok r, m')) :
    Scope.Follows (fun name => ∃ st ∈ statements, st.Declares name) s r.2 := by
  induction statements generalizing v s m with
  | nil =>
    cases h
    exact .refl _ s
  | cons st rest ih =>
    obtain ⟨⟨w, s₁⟩, m₁, hfirst, hrest⟩ := exists_of_bind_ok h
    have hlink := (follows_execute hfirst).mono fun name hname =>
      (⟨st, List.mem_cons_self, hname⟩ : ∃ st' ∈ st :: rest, st'.Declares name)
    refine hlink.trans ((ih hrest).mono fun name => ?_)
    rintro ⟨st', hst', hname⟩
    exact ⟨st', List.mem_cons_of_mem _ hst', hname⟩

/-- The script has a declaration of the name. -/
def Declares (engine : Engine) (t name : Text) : Prop :=
  ∃ statements, engine.parse t = .ok statements ∧ ∃ st ∈ statements, st.Declares name

/-- **Scripts run one after another**, the first in the scope `s`, each of the others in the
scope that the one before has left, and the last leaves `s'`. All of them end well. What is
done to the memory in between is left open. -/
inductive Runs (engine : Engine) : Scope → List Text → Scope → Prop
  | nil (s : Scope) : Runs engine s [] s
  | cons {t : Text} {ts : List Text} {s s₁ s' : Scope} {v : Value} {m m' : Machine}
      (run : engine.run t s m = (.ok (v, s₁), m')) (rest : Runs engine s₁ ts s') :
      Runs engine s (t :: ts) s'

theorem follows_run {t : Text} {r : Value × Scope}
    (h : (standard options).run t s m = (.ok r, m')) :
    Scope.Follows ((standard options).Declares t) s r.2 := by
  obtain ⟨statements, m₁, hparse, h⟩ := exists_of_bind_ok h
  obtain ⟨-, m₂, -, h⟩ := exists_of_bind_ok h
  have hparse : (standard options).parse t = .ok statements := congrArg Prod.fst hparse
  exact (follows_executeAll h).mono fun name hname => ⟨statements, hparse, hname⟩

/-- What scripts one after another leave follows what they started from. -/
theorem follows_of_runs {ts : List Text} (h : (standard options).Runs s ts s') :
    Scope.Follows (fun name => ∃ t ∈ ts, (standard options).Declares t name) s s' := by
  induction h with
  | nil s => exact .refl _ s
  | @cons t ts s s₁ s' v m m' hrun hrest ih =>
    have hlink := (follows_run hrun).mono fun name hname =>
      (⟨t, List.mem_cons_self, hname⟩ : ∃ t' ∈ t :: ts, (standard options).Declares t' name)
    refine hlink.trans (ih.mono fun name => ?_)
    rintro ⟨t', ht', hname⟩
    exact ⟨t', List.mem_cons_of_mem _ ht', hname⟩

/-- To bind a constant as a variable fails, if the value does not fail already. -/
theorem execute_binding_of_constant {name : Text} (h : name ∈ s.constants) (value : Expr)
    (m : Machine) : ((standard options).execute s (.binding name value) m).1 =
      match (value.eval options s m).1 with
      | .ok _ => .error (.evaluation (.constant name))
      | .error e => .error e := by
  change ((value.eval options s >>= fun v => Run.note [.bound name] >>= fun _ =>
    Run.lift (s.withVariable name v) >>= fun s' => pure (Value.unit, s')) m).1 = _
  rcases hvalue : value.eval options s m with ⟨r, m₁⟩
  cases r with
  | error e => rw [bind_of_error hvalue]
  | ok v =>
    rw [bind_of_ok hvalue, Scope.withVariable_of_constant h v]
    rfl

/-- **What becomes of the names of a scope** while scripts run one after another, all of them
ending well. From a scope in which all constants are bound there comes another one. The names
of the first are the first names of the second. Constants stay constants, and the value of each is
what it was, unless one of the scripts has a declaration of it, behind which it is a struct; so it
is with whatever has become a constant. And no constant can be bound as a variable. -/
theorem scope_of_runs {ts : List Text} (hs : s.ConstantsBound)
    (h : (standard options).Runs s ts s') :
    let declared (name : Text) : Prop := ∃ t ∈ ts, (standard options).Declares t name
    s.names <+: s'.names ∧ s'.ConstantsBound ∧ (∀ name ∈ s.constants, name ∈ s'.constants) ∧
    (∀ name ∈ s.constants,
      s'.get? name = s.get? name ∨ declared name ∧ s'.HasStruct name) ∧
    (∀ name ∈ s'.constants, name ∈ s.constants ∨ declared name ∧ s'.HasStruct name) ∧
    ∀ name ∈ s'.constants, ∀ value m,
      ((standard options).execute s' (.binding name value) m).1 =
        match (value.eval options s' m).1 with
        | .ok _ => .error (.evaluation (.constant name))
        | .error e => .error e := by
  intro declared
  have hfollows : Scope.Follows declared s s' := follows_of_runs h
  exact ⟨hfollows.names, hfollows.constantsBound hs, hfollows.constant, hfollows.kept,
    hfollows.added, fun name hname value m => execute_binding_of_constant hname value m⟩

end Runs

/-- A variable that a second script declares: from then on it is a struct, and cannot be bound. -/
theorem scope_of_runs_redeclared :
    let x : Text := "x"
    let scripts : List Text := ["let x = 1", "native x \x7b a: UInt8 \x7d"]
    Scope.empty.ConstantsBound ∧ ∃ s', (standard {}).Runs .empty scripts s' ∧
      s'.ConstantsBound ∧ s'.constants = [x] ∧ s'.HasStruct x ∧
      ∀ m, ((standard {}).execute s' (.binding x (.bool true)) m).1 =
        .error (.evaluation (.constant x)) := by
  intro x scripts
  have hempty : Scope.empty.ConstantsBound := nofun
  let both : Run (Value × Scope) := (standard {}).run "let x = 1" .empty >>= fun r =>
    (standard {}).run "native x \x7b a: UInt8 \x7d" r.2
  have hboth : ((both ⟨{ bytes := [] }, []⟩).1.toOption.map fun r => r.2.constants) =
      some [x] := by decide +kernel
  rcases hrun : both ⟨{ bytes := [] }, []⟩ with ⟨r, m⟩
  rw [hrun] at hboth
  obtain ⟨⟨v, s'⟩, hr, hconstants⟩ := Option.map_eq_some_iff.mp hboth
  cases eq_ok_of_toOption hr
  obtain ⟨r₁, m₁, hfirst, hsecond⟩ := exists_of_bind_ok hrun
  have hruns : (standard {}).Runs .empty scripts s' := .cons hfirst (.cons hsecond (.nil s'))
  have hconstants : s'.constants = [x] := hconstants
  have hx : x ∈ s'.constants := hconstants ▸ List.mem_singleton_self x
  obtain ⟨-, hbound, -, -, hadded, hrefused⟩ := scope_of_runs hempty hruns
  refine ⟨hempty, s', hruns, hbound, hconstants, ?_, hrefused x hx (.bool true)⟩
  exact ((hadded x hx).resolve_left List.not_mem_nil).2

end Engine

end TypedMemory
