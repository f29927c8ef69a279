import TypedMemory.Command.Run

/-!
# What a command line gives

An option that a command does not have makes no sense on its command line. So of every command
line that is read, the options are those of the command
(`TypedMemory.Command.Arguments.isListed_of_parse`), in whatever form they are given and whatever
stands between them.
-/

namespace TypedMemory.Command.Arguments

variable {specs : List OptionSpec} {t : Text} {options : List (Text × Text)} {pending : Pending}

/-- The name is that of an option in the list. -/
def IsListed (specs : List OptionSpec) (name : Text) : Prop := ∃ spec ∈ specs, spec.name = name

/-- What is read of an argument names options in the list only, those whose value is still to come
included. -/
def AreListed (specs : List OptionSpec) (options : List (Text × Text)) (pending : Pending) : Prop :=
  (∀ o ∈ options, IsListed specs o.1) ∧ ∀ name ∈ pending, IsListed specs name

theorem isListed_of_find? {p : OptionSpec → Bool} {spec : OptionSpec}
    (h : specs.find? p = some spec) : IsListed specs spec.name :=
  ⟨spec, List.mem_of_find?_eq_some h, rfl⟩

theorem areListed_of_shortRun (h : shortRun specs t = some (options, pending)) :
    AreListed specs options pending := by
  induction t generalizing options with
  | nil =>
    cases h
    exact ⟨nofun, nofun⟩
  | cons c rest ih =>
    rw [shortRun] at h
    split at h
    · cases h
    next spec hspec =>
      have hlisted := isListed_of_find? hspec
      split at h
      · split at h <;> cases h
        · exact ⟨nofun, fun _ hname => Option.mem_some.mp hname ▸ hlisted⟩
        · exact ⟨List.forall_mem_singleton.mpr hlisted, nofun⟩
      · obtain ⟨⟨more, left⟩, hmore, heq⟩ := Option.map_eq_some_iff.mp h
        cases heq
        exact ⟨List.forall_mem_cons.mpr ⟨hlisted, (ih hmore).1⟩, (ih hmore).2⟩

theorem areListed_of_longOption (h : longOption specs t = some (options, pending)) :
    AreListed specs options pending := by
  rw [longOption] at h
  split at h
  · cases h
  next spec hspec =>
    have hlisted : IsListed specs (t.takeWhile (· ≠ ('=' : CodePoint))) :=
      ⟨spec, List.mem_of_find?_eq_some hspec, of_decide_eq_true (List.find?_some hspec :)⟩
    split at h
    · split at h <;> cases h
      · exact ⟨List.forall_mem_singleton.mpr hlisted, nofun⟩
      · exact ⟨nofun, fun _ hname => Option.mem_some.mp hname ▸ hlisted⟩
    · split at h <;> cases h
      exact ⟨List.forall_mem_singleton.mpr hlisted, nofun⟩

theorem areListed_of_optionOf (h : optionOf specs t = some (options, pending)) :
    AreListed specs options pending := by
  rcases t with _ | ⟨hyphen, _ | ⟨second, word⟩⟩
  · cases h
  · cases h
  · rw [optionOf] at h
    split at h
    · exact areListed_of_longOption h
    · exact areListed_of_shortRun h

/-- **Only options that the command has are given**, for others are refused. -/
theorem isListed_of_parse {interspersed : Bool} {args : List Text} {a : Arguments}
    (h : parse specs interspersed args = some a) : ∀ o ∈ a.options, IsListed specs o.1 := by
  fun_induction parse specs interspersed args generalizing a with
  | case1 | case2 | case8 =>
    cases h
    exact nofun
  | case3 | case5 => cases h
  | case4 arg _ _ options rest hoption ih =>
    obtain ⟨more, hmore, rfl⟩ := Option.map_eq_some_iff.mp h
    exact List.forall_mem_append.mpr ⟨(areListed_of_optionOf hoption).1, ih hmore⟩
  | case6 arg _ _ options name value rest hoption ih =>
    obtain ⟨more, hmore, rfl⟩ := Option.map_eq_some_iff.mp h
    have hlisted := areListed_of_optionOf hoption
    exact List.forall_mem_append.mpr
      ⟨hlisted.1, List.forall_mem_cons.mpr ⟨hlisted.2 name rfl, ih hmore⟩⟩
  | case7 arg rest _ _ _ ih =>
    obtain ⟨more, hmore, rfl⟩ := Option.map_eq_some_iff.mp h
    exact fun o ho => ih hmore o ho

/-! ### One argument after another -/

theorem parse_option {interspersed : Bool} {arg name value : Text} {rest : List Text}
    (hend : arg ≠ "--") (hoption : isOption arg = true)
    (h : optionOf specs arg = some ([], some name)) :
    parse specs interspersed (arg :: value :: rest) =
      (parse specs interspersed rest).map fun a => a.withOption name value := by
  conv => lhs; unfold parse
  rw [if_neg hend, if_pos hoption, h]
  rfl

theorem parse_positional {arg : Text} {rest : List Text} (hend : arg ≠ "--")
    (hoption : isOption arg = false) :
    parse specs true (arg :: rest) =
      (parse specs true rest).map fun a => { a with positional := arg :: a.positional } := by
  conv => lhs; unfold parse
  rw [if_neg hend, hoption, if_neg Bool.false_ne_true, if_pos rfl]

/-- In front of a command the first argument that is no option ends them. -/
theorem parse_command {arg : Text} {rest : List Text} (hend : arg ≠ "--")
    (hoption : isOption arg = false) :
    parse specs false (arg :: rest) = some ⟨[], arg :: rest⟩ := by
  conv => lhs; unfold parse
  rw [if_neg hend, hoption, if_neg Bool.false_ne_true, if_neg Bool.false_ne_true]

/-! ### Values of options -/

theorem mem_options_of_value? {a : Arguments} {name value : Text}
    (h : a.value? name = some value) : (name, value) ∈ a.options := by
  obtain ⟨⟨found, _⟩, hfound, rfl⟩ := Option.map_eq_some_iff.mp h
  obtain rfl : found = name := by simpa using List.find?_some hfound
  exact List.mem_reverse.mp (List.mem_of_find?_eq_some hfound)

end TypedMemory.Command.Arguments

