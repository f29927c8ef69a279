import TypedMemory.Proofs.Script.Grammar

/-!
# Brackets

Statements are told apart, and the end of an expression inside of a declaration is found,
before anything is parsed: by counting brackets, whatever they are. Counting is right because
**what the grammar derives is level** (`TypedMemory.Grammar.Expression.isLevel`): its brackets
match, and a comma in it stands inside of some. So an expression ends for the count where it
ends for the grammar, and a script that parses is back at depth zero when it ends.
-/

namespace TypedMemory

namespace TokenKind

/-- What closes a bracket opens none. -/
theorem isOpener_of_isCloser {kind : TokenKind} :
    kind.isCloser = true → kind.isOpener = false := by
  cases kind <;> decide

/-- What opens a bracket ends no expression in front of it. -/
theorem endsExpression_of_isOpener {kind : TokenKind} :
    kind.isOpener = true → kind.endsExpression = false := by
  cases kind <;> decide

end TokenKind

namespace Token

/-- How deep in brackets the text behind tokens is, if that before them is that deep. -/
def depthBehind (depth : Nat) (tokens : List Token) : Nat :=
  tokens.foldl depthAfter depth

@[simp] theorem depthBehind_nil (depth : Nat) : depthBehind depth [] = depth := rfl

@[simp] theorem depthBehind_cons (depth : Nat) (t : Token) (rest : List Token) :
    depthBehind depth (t :: rest) = depthBehind (t.depthAfter depth) rest := rfl

@[simp] theorem depthBehind_append (depth : Nat) (front back : List Token) :
    depthBehind depth (front ++ back) = depthBehind (depthBehind depth front) back :=
  List.foldl_append

/-! ### Where statements end -/

/-- There is always a run. -/
theorem runs_ne_nil (depth : Nat) (tokens : List Token) : runs depth tokens ≠ [] := by
  cases tokens with
  | nil => exact List.cons_ne_nil _ _
  | cons t rest =>
    rw [runs]
    split
    · exact List.cons_ne_nil _ _
    · split <;> exact List.cons_ne_nil _ _

/-- Without a semicolon outside of brackets there is one run. -/
theorem runs_eq_singleton {depth : Nat} {tokens : List Token}
    (h : ∀ front t back, tokens = front ++ t :: back → t.kind = .semicolon →
      depthBehind depth front ≠ 0) : runs depth tokens = [tokens] := by
  induction tokens generalizing depth with
  | nil => rfl
  | cons t rest ih =>
    have hfirst : ¬(t.kind = .semicolon ∧ depth = 0) := fun ht => h [] t rest rfl ht.1 ht.2
    have hrest : runs (t.depthAfter depth) rest = [rest] := by
      refine ih fun front s back hfront hs => ?_
      exact h (t :: front) s back (congrArg (t :: ·) hfront) hs
    rw [runs, if_neg hfirst, hrest]

/-- A semicolon is no bracket. -/
theorem depthAfter_of_semicolon {t : Token} (ht : t.kind = .semicolon) (depth : Nat) :
    t.depthAfter depth = depth := by
  simp [depthAfter, ht, TokenKind.isOpener, TokenKind.isCloser]

/-- **A semicolon outside of brackets parts** the runs before it from those behind it. -/
theorem runs_append {depth : Nat} {front : List Token} (hdepth : depthBehind depth front = 0)
    {t : Token} (ht : t.kind = .semicolon) (back : List Token) :
    runs depth (front ++ t :: back) = runs depth front ++ runs 0 back := by
  induction front generalizing depth with
  | nil =>
    obtain rfl : depth = 0 := hdepth
    simp [runs, ht]
  | cons s front ih =>
    rw [List.cons_append, runs, runs]
    split
    · next hs =>
      rw [depthBehind_cons, depthAfter_of_semicolon hs.1] at hdepth
      rw [ih hdepth, List.cons_append]
    · rw [ih hdepth]
      cases hruns : runs (s.depthAfter depth) front with
      | nil => exact absurd hruns (runs_ne_nil _ _)
      | cons run more => rfl

/-- Tokens end outside of brackets if each of their runs does. -/
theorem depthBehind_eq_zero {depth : Nat} {tokens first : List Token} {more : List (List Token)}
    (hruns : runs depth tokens = first :: more) (hfirst : depthBehind depth first = 0)
    (hmore : ∀ run ∈ more, depthBehind 0 run = 0) : depthBehind depth tokens = 0 := by
  induction tokens generalizing depth first more with
  | nil =>
    cases hruns
    exact hfirst
  | cons t rest ih =>
    rw [runs] at hruns
    split at hruns
    · next ht =>
      obtain ⟨hkind, rfl⟩ := ht
      obtain ⟨rfl, rfl⟩ := List.cons.inj hruns
      obtain ⟨run, more, hrest⟩ := List.exists_cons_of_ne_nil (runs_ne_nil 0 rest)
      rw [hrest, List.forall_mem_cons] at hmore
      rw [depthBehind_cons, depthAfter_of_semicolon hkind]
      exact ih hrest hmore.1 hmore.2
    · obtain ⟨run, more', hrest⟩ :=
        List.exists_cons_of_ne_nil (runs_ne_nil (t.depthAfter depth) rest)
      rw [hrest] at hruns
      obtain ⟨rfl, rfl⟩ := List.cons.inj hruns
      exact ih hrest hfirst hmore

/-! ### Where expressions end -/

/-- Tokens whose brackets match, from a depth on, and that no comma or closing bracket in them
ends. -/
structure IsLevel (depth : Nat) (tokens : List Token) : Prop where
  depthBehind_eq : depthBehind depth tokens = depth
  expressionSpan_append : ∀ rest, expressionSpan depth (tokens ++ rest) =
    (tokens ++ (expressionSpan depth rest).1, (expressionSpan depth rest).2)

/-- An expression in front of what ends it goes just up to there. -/
theorem IsLevel.expressionSpan_eq {tokens behind : List Token} (h : IsLevel 0 tokens)
    (hbehind : ∀ t ∈ behind.head?, t.kind.endsExpression = true) :
    expressionSpan 0 (tokens ++ behind) = (tokens, behind) := by
  have hstop : expressionSpan 0 behind = ([], behind) := by
    cases behind with
    | nil => rfl
    | cons t rest => rw [expressionSpan, if_pos ⟨rfl, hbehind t rfl⟩]
  rw [h.expressionSpan_append, hstop, List.append_nil]

namespace IsLevel

variable {depth : Nat} {front back : List Token}

theorem nil : IsLevel depth [] := ⟨rfl, fun _ => rfl⟩

/-- A token that is no bracket and that ends no expression at its depth. -/
theorem cons {t : Token} (hopener : t.kind.isOpener = false) (hcloser : t.kind.isCloser = false)
    (hends : t.kind.endsExpression = true → depth ≠ 0) (h : IsLevel depth back) :
    IsLevel depth (t :: back) := by
  have hafter : t.depthAfter depth = depth := by simp [depthAfter, hopener, hcloser]
  have hgoes : ¬(depth = 0 ∧ t.kind.endsExpression = true) := fun hd => hends hd.2 hd.1
  constructor
  · rw [depthBehind_cons, hafter, h.depthBehind_eq]
  · intro rest
    rw [List.cons_append, expressionSpan, if_neg hgoes, hafter, h.expressionSpan_append]
    rfl

theorem append (hfront : IsLevel depth front) (hback : IsLevel depth back) :
    IsLevel depth (front ++ back) := by
  constructor
  · rw [depthBehind_append, hfront.depthBehind_eq, hback.depthBehind_eq]
  · intro rest
    rw [List.append_assoc, hfront.expressionSpan_append, hback.expressionSpan_append,
      List.append_assoc]

/-- Level tokens in brackets. -/
theorem brackets {opening closing : Token} {inside : List Token}
    (hopening : opening.kind.isOpener = true) (hclosing : closing.kind.isCloser = true)
    (h : IsLevel (depth + 1) inside) : IsLevel depth (opening :: inside ++ [closing]) := by
  have hopen : opening.depthAfter depth = depth + 1 := by simp [depthAfter, hopening]
  have hclose : closing.depthAfter (depth + 1) = depth := by
    simp [depthAfter, hclosing, TokenKind.isOpener_of_isCloser hclosing]
  constructor
  · simp [hopen, h.depthBehind_eq, hclose]
  · intro rest
    simp [expressionSpan, hopen, TokenKind.endsExpression_of_isOpener hopening,
      h.expressionSpan_append, hclose]

end IsLevel

end Token

/-! ### What the grammar derives -/

namespace Grammar

open Token (IsLevel)

namespace Terminal

variable {kinds : List TokenKind} {depth : Nat} {inside rest : List Token}

/-- In front of level tokens, a token that is neither a bracket nor a comma. -/
theorem isLevel_cons (t : Terminal kinds) (h : IsLevel depth rest)
    (hkinds : ∀ kind ∈ kinds, kind.isOpener = false ∧ kind.endsExpression = false := by decide) :
    IsLevel depth (t.1 :: rest) := by
  obtain ⟨hopener, hends⟩ := hkinds t.1.kind t.2
  refine h.cons hopener ?_ fun ht => absurd (hends.symm.trans ht) Bool.false_ne_true
  cases hkind : t.1.kind <;> simp_all [TokenKind.endsExpression, TokenKind.isCloser]

/-- In front of level tokens inside of brackets, a comma. -/
theorem isLevel_comma (t : Terminal [.comma]) (h : IsLevel (depth + 1) rest) :
    IsLevel (depth + 1) (t.1 :: rest) := by
  have hkind : t.1.kind = .comma := by simpa using t.2
  exact h.cons (by rw [hkind]; rfl) (by rw [hkind]; rfl) fun _ => Nat.succ_ne_zero depth

/-- Level tokens between a bracket that opens and one that closes. -/
theorem isLevel_brackets {others : List TokenKind} (opening : Terminal kinds)
    (closing : Terminal others) (h : IsLevel (depth + 1) inside)
    (hkinds : ∀ kind ∈ kinds, kind.isOpener = true := by decide)
    (hothers : ∀ kind ∈ others, kind.isCloser = true := by decide) :
    IsLevel depth (opening.1 :: inside ++ [closing.1]) :=
  .brackets (hkinds opening.1.kind opening.2) (hothers closing.1.kind closing.2) h

end Terminal

mutual

/-- **An expression is level.** -/
theorem Expression.isLevel (depth : Nat) : (e : Expression) → IsLevel depth e.tokens
  | .sum s => s.isLevel depth
  | .comparison left sign right =>
    (left.isLevel depth).append (sign.isLevel_cons (right.isLevel depth))

/-- A sum is level. -/
theorem Sum.isLevel (depth : Nat) : (s : Sum) → IsLevel depth s.tokens
  | .single u => u.isLevel depth
  | .more left sign right =>
    (left.isLevel depth).append (sign.isLevel_cons (right.isLevel depth))

/-- An operand with its signs is level. -/
theorem Unary.isLevel (depth : Nat) : (u : Unary) → IsLevel depth u.tokens
  | .chain c => c.isLevel depth
  | .negation sign operand => sign.isLevel_cons (operand.isLevel depth)

/-- An atom with what is asked of it is level. -/
theorem Chain.isLevel (depth : Nat) : (c : Chain) → IsLevel depth c.tokens
  | .atom a => a.isLevel depth
  | .member target dot name =>
    (target.isLevel depth).append (dot.isLevel_cons (name.isLevel_cons .nil))
  | .methodCall target dot name opening arguments closing => by
    rw [Chain.tokens, List.append_assoc]
    exact (target.isLevel depth).append (dot.isLevel_cons (name.isLevel_cons
      (opening.isLevel_brackets closing (arguments.isLevel depth))))
  | .index target opening key closing => by
    rw [Chain.tokens, List.append_assoc]
    exact (target.isLevel depth).append (opening.isLevel_brackets closing (key.isLevel _))

/-- An atom is level. -/
theorem Atom.isLevel (depth : Nat) : (a : Atom) → IsLevel depth a.tokens
  | .name n => n.isLevel_cons .nil
  | .literal t => t.isLevel_cons .nil
  | .call name opening arguments closing =>
    name.isLevel_cons (opening.isLevel_brackets closing (arguments.isLevel depth))
  | .record opening entries closing => opening.isLevel_brackets closing (entries.isLevel depth)
  | .array opening items closing => opening.isLevel_brackets closing (items.isLevel depth)
  | .group opening e closing => opening.isLevel_brackets closing (e.isLevel _)

/-- Arguments are level inside of brackets, for their commas. -/
theorem Arguments.isLevel (depth : Nat) : (a : Arguments) → IsLevel (depth + 1) a.tokens
  | .single e => e.isLevel _
  | .more before comma e => (before.isLevel depth).append (comma.isLevel_comma (e.isLevel _))

/-- Arguments that may be left out are level inside of brackets. -/
theorem OptionalArguments.isLevel (depth : Nat) :
    (a : OptionalArguments) → IsLevel (depth + 1) a.tokens
  | .absent => .nil
  | .present a => a.isLevel depth

/-- Entries are level inside of brackets, for their commas. -/
theorem Entries.isLevel (depth : Nat) : (e : Entries) → IsLevel (depth + 1) e.tokens
  | .single e => e.isLevel _
  | .more before comma e => (before.isLevel depth).append (comma.isLevel_comma (e.isLevel _))

/-- Entries that may be left out are level inside of brackets. -/
theorem OptionalEntries.isLevel (depth : Nat) :
    (e : OptionalEntries) → IsLevel (depth + 1) e.tokens
  | .absent => .nil
  | .present e => e.isLevel depth

/-- An entry is level. -/
theorem NamedExpression.isLevel (depth : Nat) :
    (e : NamedExpression) → IsLevel depth e.tokens
  | .mk name colon value => name.isLevel_cons (colon.isLevel_cons (value.isLevel depth))

end

/-- A statement is level. -/
theorem Statement.isLevel (depth : Nat) : (d : Statement) → IsLevel depth d.tokens
  | .binding word name sign value =>
    word.isLevel_cons (name.isLevel_cons (sign.isLevel_cons (value.isLevel depth)))
  | .expression value _ => value.isLevel depth

end Grammar

end TypedMemory
