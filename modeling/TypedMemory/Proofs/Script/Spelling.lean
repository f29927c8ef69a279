import TypedMemory.Proofs.Script.Numerals

/-!
# How tokens are spelled

A form of statements sees the texts of tokens and not their kinds. For what a scan gives that
is no less: a symbol of one code point is known by its text
(`TypedMemory.Token.IsSpelled.text_eq_iff`), since a token of any other kind begins with what
starts a value or a name, or is longer.
-/

namespace TypedMemory.Token

/-- What a value or a name can start with. -/
def startsValue (c : CodePoint) : Bool := isNameStart c || c.isDigit || c = '"'

/-- The token is what some text starts with. -/
def IsSpelled (t : Token) : Prop :=
  ∃ c rest length, lexeme? c rest = some (some t.kind, length) ∧ t.text = c :: rest.take length

/-- **Every token of a text** is what the text starts with at its place. -/
theorem isSpelled_of_scanFrom {position : Position} {offset : Nat} {t : Text}
    {tokens : List Token} (h : scanFrom position offset t = .ok tokens) :
    ∀ k ∈ tokens, k.IsSpelled := by
  match t with
  | [] =>
    rw [scanFrom] at h
    cases h
    exact fun k hk => absurd hk List.not_mem_nil
  | c :: rest =>
    obtain ⟨kind?, length, more, hlexeme, hmore, rfl⟩ := exists_of_scanFrom_cons h
    have hrest := isSpelled_of_scanFrom hmore
    cases kind? with
    | none => exact hrest
    | some kind => exact List.forall_mem_cons.mpr ⟨⟨c, rest, length, hlexeme, rfl⟩, hrest⟩
termination_by t.length
decreasing_by simp only [List.length_drop, List.length_cons]; omega

/-! ### What a token starts with -/

theorem isValue_nameKind (t : Text) : (nameKind t).isValue = true := by
  rw [nameKind]
  repeat' split
  all_goals rfl

theorem isValue_numberShape (c : CodePoint) (rest : Text) :
    (numberShape c rest).1.isValue = true := by
  rw [numberShape]
  dsimp only
  repeat' split
  all_goals rfl

/-- A token is a value or a name, and begins like one, or it is a symbol. -/
theorem isValue_or_symbolShape {c : CodePoint} {rest : Text} {kind : TokenKind} {length : Nat}
    (h : lexeme? c rest = some (some kind, length)) :
    (kind.isValue = true ∧ startsValue c = true) ∨ symbolShape? c rest = some (kind, length) := by
  rw [lexeme?] at h
  split at h
  · cases h
  split at h
  · cases h
  split at h
  · next hc =>
    cases h
    exact .inl ⟨isValue_nameKind _, by simp [startsValue, hc]⟩
  split at h
  · next hc =>
    cases h
    exact .inl ⟨isValue_numberShape c rest, by simp [startsValue, hc]⟩
  split at h
  · next hc =>
    obtain ⟨n, -, heq⟩ := Option.map_eq_some_iff.mp h
    cases heq
    exact .inl ⟨rfl, by simp [startsValue, hc]⟩
  · obtain ⟨⟨k, n⟩, hk, heq⟩ := Option.map_eq_some_iff.mp h
    cases heq
    exact .inr hk

/-- A symbol is one of two code points or one of a single one. -/
theorem mem_of_symbolShape? {c : CodePoint} {rest : Text} {kind : TokenKind} {length : Nat}
    (h : symbolShape? c rest = some (kind, length)) :
    (∃ d, rest.take length = [d] ∧ ((c, d), kind) ∈ doubleSymbols) ∨
      (rest.take length = [] ∧ (c, kind) ∈ symbols) := by
  rw [symbolShape?] at h
  split at h
  · next k hk =>
    cases h
    obtain ⟨d, hd, hlookup⟩ := Option.bind_eq_some_iff.mp hk
    obtain ⟨more, rfl⟩ := List.head?_eq_some_iff.mp hd
    exact .inl ⟨d, rfl, mem_of_lookup hlookup⟩
  · obtain ⟨k, hk, heq⟩ := Option.map_eq_some_iff.mp h
    cases heq
    exact .inr ⟨rfl, mem_of_lookup hk⟩

/-- **A symbol of one code point is known by its text.** -/
theorem IsSpelled.text_eq_iff {t : Token} (ht : t.IsSpelled) {c : CodePoint} {kind : TokenKind}
    (hsymbol : (c, kind) ∈ symbols) : t.text = [c] ↔ t.kind = kind := by
  have hstarts : ∀ s ∈ symbols, startsValue s.1 = false := by decide
  have hvalues : ∀ s ∈ symbols, s.2.isValue = false := by decide
  have hkinds : ∀ s ∈ symbols, ∀ d ∈ doubleSymbols, d.2 ≠ s.2 := by decide
  have hcode : ∀ s ∈ symbols, ∀ s' ∈ symbols, s.1 = s'.1 ↔ s.2 = s'.2 := by decide
  obtain ⟨c', rest, length, hlexeme, htext⟩ := ht
  rcases isValue_or_symbolShape hlexeme with ⟨hvalue, hstart⟩ | hshape
  · have hne : c' ≠ c := by
      rintro rfl
      exact Bool.false_ne_true ((hstarts _ hsymbol).symm.trans hstart)
    have hkind : t.kind ≠ kind := by
      rintro rfl
      exact Bool.false_ne_true ((hvalues _ hsymbol).symm.trans hvalue)
    simp [htext, hne, hkind]
  · rcases mem_of_symbolShape? hshape with ⟨d, htake, hmem⟩ | ⟨htake, hmem⟩
    · simp [htext, htake, hkinds _ hsymbol _ hmem]
    · simpa [htext, htake] using hcode _ hmem _ hsymbol

end TypedMemory.Token
