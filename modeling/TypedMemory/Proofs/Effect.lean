import Mathlib.Order.Defs.Unbundled
import TypedMemory.Error

/-!
# Effects that may fail

A **result** is a value or a failure, and a sequence of results fails as the first of them
that does. What changes memory, and what a script does to its machine, is an **effect**: it
runs on a state, ends in a result, and leaves a state whatever the result. The facts here hold
of every kind of state. They take a sequence of two effects apart by how the first one ends,
and they carry through a sequence what is known of its parts: of their results, of their
failures, and of the states they leave.
-/

namespace TypedMemory

/-- A sequence of two results is one only if both are. -/
theorem exists_of_bind_eq_ok {ε α β : Type} {x : Except ε α} {f : α → Except ε β} {b : β}
    (h : (x >>= f) = .ok b) : ∃ a, x = .ok a ∧ f a = .ok b := by
  cases x with
  | error e => cases h
  | ok a => exact ⟨a, rfl, h⟩

/-- A failure told in another way is a failure. -/
theorem mapError_eq_ok_iff {ε ε' α : Type} {x : Except ε α} {f : ε → ε'} {a : α} :
    x.mapError f = .ok a ↔ x = .ok a := by
  cases x with
  | error e => exact ⟨nofun, nofun⟩
  | ok b => exact ⟨fun h => congrArg Except.ok (Except.ok.inj h), fun h => h ▸ rfl⟩

/-- A sequence of two results fails as the first or as the second does. -/
theorem or_of_bind_eq_error {α β : Type} {x : Except Error α} {f : α → Except Error β}
    {e : Error} (h : (x >>= f) = .error e) : x = .error e ∨ ∃ a, x = .ok a ∧ f a = .error e := by
  cases x with
  | error e' =>
    cases h
    exact .inl rfl
  | ok a => exact .inr ⟨a, rfl, h⟩

/-- Each value of a list of results is that of one of them. -/
theorem exists_of_mapM_eq_ok {α β : Type} {f : α → Except Error β} {as : List α} {bs : List β}
    (h : as.mapM f = .ok bs) {b : β} (hb : b ∈ bs) : ∃ a ∈ as, f a = .ok b := by
  induction as generalizing bs with
  | nil =>
    cases h
    cases hb
  | cons a as ih =>
    rw [List.mapM_cons] at h
    obtain ⟨first, hfirst, h⟩ := exists_of_bind_eq_ok h
    obtain ⟨more, hmore, h⟩ := exists_of_bind_eq_ok h
    cases h
    rcases List.mem_cons.mp hb with rfl | hb
    · exact ⟨a, List.mem_cons_self, hfirst⟩
    · obtain ⟨a', ha', hvalue⟩ := ih hmore hb
      exact ⟨a', List.mem_cons_of_mem a ha', hvalue⟩

/-- What a result gives is all that it is. -/
theorem eq_ok_of_toOption {α : Type} {x : Except Error α} {a : α} (h : x.toOption = some a) :
    x = .ok a := by
  cases x with
  | error e => cases h
  | ok b => exact congrArg Except.ok (Option.some.inj h)

/-! ### The failure of a result -/

/-- The failure of a result, if it is one. -/
def failure? {α : Type} : Except Error α → Option Error
  | .ok _ => none
  | .error e => some e

theorem failure?_eq_none_iff {α : Type} {x : Except Error α} :
    failure? x = none ↔ ∃ a, x = .ok a := by
  cases x <;> simp [failure?]

theorem failure?_eq_some_iff {α : Type} {x : Except Error α} {e : Error} :
    failure? x = some e ↔ x = .error e := by
  cases x <;> simp [failure?]

/-- Where the second part fails alike for all that the first can give, a sequence fails as the
first part does, or else as the second. -/
theorem failure?_bind {α β : Type} {x : Except Error α} {f : α → Except Error β}
    {o : Option Error} (h : ∀ a, failure? (f a) = o) :
    failure? (x >>= f) = (failure? x).or o := by
  cases x with
  | error e => rfl
  | ok a => exact h a

/-- What becomes of the value makes no difference. -/
theorem failure?_bind_pure {α β : Type} {x : Except Error α} {f : α → β} :
    failure? (x >>= fun a => pure (f a)) = failure? x := by
  cases x <;> rfl

theorem bind_pure_eq_error_iff {α β : Type} {x : Except Error α} {f : α → β} {e : Error} :
    (x >>= fun a => pure (f a)) = .error e ↔ x = .error e := by
  rw [← failure?_eq_some_iff, failure?_bind_pure, failure?_eq_some_iff]

/-- A number that is too long to be spelled is the one failure to spell it. -/
theorem spellable_eq_error_iff {n : Int} {e : Error} :
    spellable n = .error e ↔ Numeral.isSpellable n = false ∧ e = .failure .longNumeral := by
  rw [spellable]
  cases Numeral.isSpellable n <;> simp [eq_comm]

/-! ### Effects on a state -/

/-- An effect on a state. What it did before failing stays done. -/
abbrev Effect (σ α : Type) := ExceptT Error (StateM σ) α

namespace Effect

variable {σ α β : Type}

/-- **A sequence of two effects**, by how the first one ends. -/
theorem bind_apply (x : Effect σ α) (f : α → Effect σ β) (s : σ) :
    (x >>= f) s = match x s with
      | (.ok a, s') => f a s'
      | (.error e, s') => (.error e, s') := by
  change StateT.bind x (ExceptT.bindCont f) s = _
  rw [StateT.bind]
  rcases x s with ⟨r, s'⟩
  cases r <;> rfl

theorem bind_of_ok {x : Effect σ α} {f : α → Effect σ β} {s s' : σ} {a : α}
    (h : x s = (.ok a, s')) : (x >>= f) s = f a s' := by
  rw [bind_apply, h]

theorem bind_of_error {x : Effect σ α} {f : α → Effect σ β} {s s' : σ} {e : Error}
    (h : x s = (.error e, s')) : (x >>= f) s = (.error e, s') := by
  rw [bind_apply, h]

/-- A sequence that ends well is made of two parts that do. -/
theorem exists_of_bind_ok {x : Effect σ α} {f : α → Effect σ β} {s s' : σ} {b : β}
    (h : (x >>= f) s = (.ok b, s')) :
    ∃ a s₁, x s = (.ok a, s₁) ∧ f a s₁ = (.ok b, s') := by
  rw [bind_apply] at h
  rcases hx : x s with ⟨r, s₁⟩
  rw [hx] at h
  cases r with
  | error e => cases h
  | ok a => exact ⟨a, s₁, rfl, h⟩

/-- A sequence that fails does so in its first part or in its second. -/
theorem or_of_bind_error {x : Effect σ α} {f : α → Effect σ β} {s s' : σ} {e : Error}
    (h : (x >>= f) s = (.error e, s')) :
    x s = (.error e, s') ∨ ∃ a s₁, x s = (.ok a, s₁) ∧ f a s₁ = (.error e, s') := by
  rw [bind_apply] at h
  rcases hx : x s with ⟨r, s₁⟩
  rw [hx] at h
  cases r with
  | error e' =>
    cases h
    exact .inl rfl
  | ok a => exact .inr ⟨a, s₁, rfl, h⟩

/-! ### What is known of the result -/

/-- Every result the effect can end in has the property. -/
def Gives (P : α → Prop) (x : Effect σ α) : Prop :=
  ∀ s a s', x s = (.ok a, s') → P a

theorem gives_pure {P : α → Prop} {a : α} (h : P a) : Gives P (pure a : Effect σ α) := by
  intro s b s' hb
  cases hb
  exact h

/-- What the first part gives is all that the second part may count on. -/
theorem Gives.bind {P : α → Prop} {Q : β → Prop} {x : Effect σ α} {f : α → Effect σ β}
    (hx : Gives P x) (hf : ∀ a, P a → Gives Q (f a)) : Gives Q (x >>= f) := by
  intro s b s' h
  obtain ⟨a, s₁, h₁, h₂⟩ := exists_of_bind_ok h
  exact hf a (hx s a s₁ h₁) s₁ b s' h₂

/-! ### What is known of the failure -/

/-- Every failure the effect can end in has the property. -/
def FailsOnly (P : Error → Prop) (x : Effect σ α) : Prop :=
  ∀ s e s', x s = (.error e, s') → P e

theorem failsOnly_pure {P : Error → Prop} {a : α} : FailsOnly P (pure a : Effect σ α) := by
  intro s e s' h
  cases h

/-- A sequence fails as one of its parts does. -/
theorem FailsOnly.bind {P : Error → Prop} {x : Effect σ α} {f : α → Effect σ β}
    (hx : FailsOnly P x) (hf : ∀ a, FailsOnly P (f a)) : FailsOnly P (x >>= f) := by
  intro s e s' h
  rcases or_of_bind_error h with h | ⟨a, s₁, -, h⟩
  · exact hx s e s' h
  · exact hf a s₁ e s' h

/-! ### What is known of the states -/

/-- The state that the effect leaves, whether it ends well or not, is in the relation to the one
that it starts from. -/
def Moves (R : σ → σ → Prop) (x : Effect σ α) : Prop :=
  ∀ s, R s (x s).2

section Moves

variable {R : σ → σ → Prop}

theorem moves_of_still [Std.Refl R] {x : Effect σ α} (h : ∀ s, (x s).2 = s) : Moves R x := by
  intro s
  rw [h s]
  exact refl s

theorem moves_pure [Std.Refl R] {a : α} : Moves R (pure a : Effect σ α) :=
  moves_of_still fun _ => rfl

/-- A sequence moves as its parts do, one behind the other, or as the first alone if that fails.
What the first part gives is all that the second part may count on. -/
theorem Moves.bind_of_gives [IsTrans σ R] {P : α → Prop} {x : Effect σ α} {f : α → Effect σ β}
    (hg : Gives P x) (hx : Moves R x) (hf : ∀ a, P a → Moves R (f a)) : Moves R (x >>= f) := by
  intro s
  have hfirst := hx s
  rw [bind_apply]
  rcases hxs : x s with ⟨r, s₁⟩
  rw [hxs] at hfirst
  cases r with
  | error e => exact hfirst
  | ok a => exact IsTrans.trans _ _ _ hfirst (hf a (hg s a s₁ hxs) s₁)

theorem Moves.bind [IsTrans σ R] {x : Effect σ α} {f : α → Effect σ β} (hx : Moves R x)
    (hf : ∀ a, Moves R (f a)) : Moves R (x >>= f) :=
  hx.bind_of_gives (P := fun _ => True) (fun _ _ _ _ => trivial) fun a _ => hf a

end Moves

end Effect

end TypedMemory
