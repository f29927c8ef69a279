import Mathlib.Data.List.TakeWhile
import Mathlib.Tactic.Tauto
import TypedMemory.Proofs.Script.Boundaries
import TypedMemory.Proofs.Script.Spelling

/-!
# The longest lexeme at a place

What a **lexeme** is can be said without a scanner: a blank, a comment, or a token as the terminals
of the grammar write it (`TypedMemory.Token.IsLexeme`). The scanner looks at the first code points
of a text and decides at once. What it takes is always the longest lexeme that the text begins with
(`TypedMemory.Token.isLongest_iff`), and it takes nothing only where no lexeme begins
(`TypedMemory.Token.lexeme?_eq_none_iff`). In both, one half is that what it takes is a lexeme. The
other half goes through the lexemes: wherever one of them stands the scanner takes no less
(`TypedMemory.Token.takes_of_isLexeme`), and if it takes no more then it takes it for the same kind.

The kinds overlap in few places. A word with a meaning of its own is no name, and where it goes on
it is one; the zero of `0x1` and the whole part of `1.5` are numbers by themselves; and `==` and
`#{` begin with what may be another symbol or none.
-/

namespace TypedMemory.Token

/-! ### Lexemes -/

/-- Space, tab, carriage return, form feed and line feed. -/
def blanks : List CodePoint := [' ', '\t', '\r', '\x0c', '\n']

/-- The tokens that are written in one way only. -/
def spellings : List (Text × TokenKind) := [
  ("let", .letWord), ("true", .trueWord), ("false", .falseWord), ("(", .leftParen),
  (")", .rightParen), ("\x7b", .leftBrace), ("\x7d", .rightBrace), ("#\x7b", .hashBrace),
  ("[", .leftBracket), ("]", .rightBracket), (",", .comma), (":", .colon), (";", .semicolon),
  (".", .dot), ("^", .caret), ("+", .plus), ("-", .minus), ("==", .equal), ("!=", .notEqual),
  ("=", .assign)]

/-- What stands between the quotes of a string. -/
inductive IsStringBody : Text → Prop
  | nil : IsStringBody []
  | plain {c : CodePoint} {t : Text} (quote : c ≠ '"') (back : c ≠ '\\') (feed : c ≠ '\n')
      (more : IsStringBody t) : IsStringBody (c :: t)
  | escape {c : CodePoint} {t : Text} (feed : c ≠ '\n') (more : IsStringBody t) :
      IsStringBody ('\\' :: c :: t)

/-- **How lexemes are written**: a token of some kind, or a blank or a comment, of no kind. -/
inductive IsLexeme : Option TokenKind → Text → Prop
  | blank {c : CodePoint} (mem : c ∈ blanks) : IsLexeme none [c]
  | comment {t : Text} (feed : ('\n' : CodePoint) ∉ t) : IsLexeme none ('/' :: '/' :: t)
  | fixed {t : Text} {kind : TokenKind} (mem : (t, kind) ∈ spellings) : IsLexeme (some kind) t
  | name {c : CodePoint} {t : Text} (start : isNameStart c = true)
      (parts : ∀ d ∈ t, isNamePart d = true) (free : ∀ kind, (c :: t, kind) ∉ spellings) :
      IsLexeme (some .name) (c :: t)
  | hexNumber {t : Text} (ne : t ≠ []) (digits : ∀ c ∈ t, isHexDigit c = true) :
      IsLexeme (some .hexNumber) ('0' :: 'x' :: t)
  | int {t : Text} (ne : t ≠ []) (digits : ∀ c ∈ t, c.isDigit = true) : IsLexeme (some .int) t
  | decimal {t u : Text} (ne : t ≠ []) (digits : ∀ c ∈ t, c.isDigit = true) (ne' : u ≠ [])
      (digits' : ∀ c ∈ u, c.isDigit = true) : IsLexeme (some .decimal) (t ++ ('.' : CodePoint) :: u)
  | string {t : Text} (body : IsStringBody t) :
      IsLexeme (some .string) ('"' :: (t ++ [('"' : CodePoint)]))

/-- The longest lexeme that a text begins with. -/
structure IsLongest (kind? : Option TokenKind) (lexeme t : Text) : Prop where
  isLexeme : IsLexeme kind? lexeme
  begins : lexeme <+: t
  longest : ∀ other? other, IsLexeme other? other → other <+: t → other.length ≤ lexeme.length

theorem IsLexeme.ne_nil {kind? : Option TokenKind} {t : Text} (h : IsLexeme kind? t) : t ≠ [] := by
  have hspellings : ∀ s ∈ spellings, s.1 ≠ [] := by decide
  cases h with
  | fixed mem => exact hspellings _ mem
  | int ne => exact ne
  | decimal => simp
  | _ => exact List.cons_ne_nil _ _

/-! ### What is taken is a lexeme -/

variable {c : CodePoint} {rest : Text} {kind? : Option TokenKind} {length : Nat}

theorem isBlank_iff : isBlank c = true ↔ c ∈ blanks := by
  simp only [isBlank, blanks, Bool.or_eq_true, decide_eq_true_eq, List.mem_cons, List.not_mem_nil,
    or_false]
  tauto

/-- A string is taken up to its closing quote. -/
theorem exists_of_stringLength? {t : Text} (h : stringLength? t = some length) :
    length ≤ t.length ∧
      ∃ body, t.take length = body ++ [('"' : CodePoint)] ∧ IsStringBody body := by
  refine ⟨(stringLength?_append h []).1, ?_⟩
  fun_induction stringLength? t generalizing length with
  | case1 | case3 | case4 | case5 => cases h
  | case2 rest =>
    cases h
    exact ⟨[], rfl, .nil⟩
  | case6 d rest hd _ _ ih =>
    obtain ⟨n, hn, rfl⟩ := Option.map_eq_some_iff.mp h
    obtain ⟨body, htake, hbody⟩ := ih hn
    exact ⟨'\\' :: d :: body, by rw [List.take_succ_cons, List.take_succ_cons, htake]; rfl,
      .escape hd hbody⟩
  | case7 d rest hquote hfeed hback ih =>
    obtain ⟨n, hn, rfl⟩ := Option.map_eq_some_iff.mp h
    obtain ⟨body, htake, hbody⟩ := ih hn
    exact ⟨d :: body, by rw [List.take_succ_cons, htake]; rfl, .plain hquote hback hfeed hbody⟩

theorem nameKind_eq_name_or_mem (t : Text) : nameKind t = .name ∨ (t, nameKind t) ∈ spellings := by
  rw [nameKind]
  split
  · next heq => exact .inr (heq ▸ by decide)
  split
  · next heq => exact .inr (heq ▸ by decide)
  split
  · next heq => exact .inr (heq ▸ by decide)
  · exact .inl rfl

/-- What is taken of a name is a name, or a word with a meaning of its own. -/
theorem isLexeme_nameKind {t : Text} (hstart : isNameStart c = true)
    (hparts : ∀ d ∈ t, isNamePart d = true) : IsLexeme (some (nameKind (c :: t))) (c :: t) := by
  have hwords : ∀ s ∈ spellings, s.1.head?.any isNameStart = true → nameKind s.1 ≠ .name := by
    decide
  rcases nameKind_eq_name_or_mem (c :: t) with hname | hmem
  · rw [hname]
    exact .name hstart hparts fun kind hmem => hwords _ hmem hstart hname
  · exact .fixed hmem

/-- What is taken of a number is a number of its kind. -/
theorem isLexeme_numberShape (hc : c.isDigit = true) :
    IsLexeme (some (numberShape c rest).1) (c :: rest.take (numberShape c rest).2) := by
  rw [numberShape]
  dsimp only
  split
  · next h =>
    obtain ⟨rfl, hhead, hlength⟩ := h
    obtain ⟨more, rfl⟩ := List.head?_eq_some_iff.mp hhead
    rw [Nat.add_comm, List.take_succ_cons, List.drop_succ_cons, List.drop_zero, take_runLength]
    exact .hexNumber (fun hnil => hlength (congrArg List.length hnil)) fun _ =>
      List.mem_takeWhile_imp
  · have hwhole : ∀ d ∈ c :: rest.takeWhile CodePoint.isDigit, d.isDigit = true :=
      List.forall_mem_cons.mpr ⟨hc, fun _ => List.mem_takeWhile_imp⟩
    split
    · next h =>
      obtain ⟨more, hmore⟩ := List.head?_eq_some_iff.mp h.1
      have htake : rest.take (runLength CodePoint.isDigit rest + 1 +
            runLength CodePoint.isDigit more) =
          rest.takeWhile CodePoint.isDigit ++
            ('.' : CodePoint) :: more.takeWhile CodePoint.isDigit := by
        rw [Nat.add_assoc, List.take_add, take_runLength, hmore, Nat.add_comm 1,
          List.take_succ_cons, take_runLength]
      rw [hmore, List.drop_succ_cons, List.drop_zero] at h ⊢
      rw [htake, ← List.cons_append]
      exact .decimal (List.cons_ne_nil _ _) hwhole (fun hnil => h.2 (congrArg List.length hnil))
        fun _ => List.mem_takeWhile_imp
    · rw [take_runLength]
      exact .int (List.cons_ne_nil _ _) hwhole

/-- **What the scanner takes is a lexeme** of the text, of the kind that it tells. -/
theorem isLexeme_of_lexeme? (h : lexeme? c rest = some (kind?, length)) :
    length ≤ rest.length ∧ IsLexeme kind? (c :: rest.take length) := by
  have hsingles : ∀ s ∈ symbols, ([s.1], s.2) ∈ spellings := by decide
  have hdoubles : ∀ s ∈ doubleSymbols, ([s.1.1, s.1.2], s.2) ∈ spellings := by decide
  rw [lexeme?] at h
  split at h
  · next hblank =>
    cases h
    exact ⟨Nat.zero_le _, .blank (isBlank_iff.mp hblank)⟩
  split at h
  · next hslashes =>
    cases h
    obtain ⟨rfl, hhead⟩ := hslashes
    obtain ⟨more, rfl⟩ := List.head?_eq_some_iff.mp hhead
    refine ⟨runLength_le _ _, ?_⟩
    rw [take_runLength, List.takeWhile_cons_of_pos (by decide)]
    refine .comment fun hfeed => ?_
    simpa using List.mem_takeWhile_imp hfeed
  split at h
  · next hstart =>
    cases h
    rw [take_runLength]
    exact ⟨runLength_le _ _, isLexeme_nameKind hstart fun _ => List.mem_takeWhile_imp⟩
  split at h
  · next hdigit =>
    cases h
    exact ⟨numberShape_le c rest, isLexeme_numberShape hdigit⟩
  split at h
  · next hquote =>
    obtain ⟨n, hn, heq⟩ := Option.map_eq_some_iff.mp h
    cases heq
    obtain ⟨hle, body, htake, hbody⟩ := exists_of_stringLength? hn
    rw [hquote, htake]
    exact ⟨hle, .string hbody⟩
  · obtain ⟨⟨kind, n⟩, hshape, heq⟩ := Option.map_eq_some_iff.mp h
    cases heq
    refine ⟨symbolShape?_le hshape, .fixed ?_⟩
    rcases mem_of_symbolShape? hshape with ⟨d, htake, hmem⟩ | ⟨htake, hmem⟩
    · rw [htake]
      exact hdoubles _ hmem
    · rw [htake]
      exact hsingles _ hmem

theorem IsSpelled.isLexeme {t : Token} (ht : t.IsSpelled) : IsLexeme (some t.kind) t.text := by
  obtain ⟨c, rest, length, hlexeme, htext⟩ := ht
  exact htext ▸ (isLexeme_of_lexeme? hlexeme).2

/-! ### No lexeme is longer -/

/-- Where a text stands, the scanner takes no less than the text, and if it takes no more then it
takes it for this kind. -/
def Takes (c : CodePoint) (rest : Text) (kind? : Option TokenKind) (t : Text) : Prop :=
  ∃ found? length, lexeme? c rest = some (found?, length) ∧ t.length ≤ length + 1 ∧
    (t.length = length + 1 → found? = kind?)

theorem length_le_runLength {p : CodePoint → Bool} {t : Text} (ht : ∀ d ∈ t, p d = true)
    (h : t <+: rest) : t.length ≤ runLength p rest := by
  obtain ⟨behind, rfl⟩ := h
  rw [runLength, List.takeWhile_append_of_pos ht, List.length_append]
  exact Nat.le_add_right _ _

theorem lexeme?_of_symbol (h : isBlank c = false ∧ c ≠ '/' ∧ startsValue c = false)
    (rest : Text) :
    lexeme? c rest = (symbolShape? c rest).map fun (kind, length) => (some kind, length) := by
  obtain ⟨hblank, hslash, hvalue⟩ := h
  simp only [startsValue, Bool.or_eq_false_iff, decide_eq_false_iff_not] at hvalue
  rw [lexeme?, hblank, if_neg Bool.false_ne_true, if_neg fun hslashes => hslash hslashes.1,
    hvalue.1.1, if_neg Bool.false_ne_true, hvalue.1.2, if_neg Bool.false_ne_true, if_neg hvalue.2]

theorem takes_comment {t : Text} (hfeed : ('\n' : CodePoint) ∉ t)
    (h : ('/' :: t : Text) <+: rest) : Takes '/' rest none ('/' :: '/' :: t) := by
  obtain ⟨behind, rfl⟩ := h
  refine ⟨none, _, rfl, ?_, fun _ => rfl⟩
  refine Nat.add_le_add_right (length_le_runLength (fun d hd => ?_) (List.prefix_append _ _)) 1
  rcases List.mem_cons.mp hd with rfl | hd
  · decide
  · exact decide_eq_true fun heq => hfeed (heq ▸ hd)

/-- Names and words go on as far as they can. -/
theorem takes_word {t : Text} (hstart : isNameStart c = true)
    (hparts : ∀ d ∈ t, isNamePart d = true) (h : t <+: rest) :
    Takes c rest (some (nameKind (c :: t))) (c :: t) := by
  refine ⟨_, _, lexeme?_of_isNameStart hstart rest,
    Nat.add_le_add_right (length_le_runLength hparts h) 1, fun hlength => ?_⟩
  rw [← take_runLength, ← Nat.add_right_cancel hlength, List.prefix_iff_eq_take.mp h,
    List.length_take, Nat.min_eq_left h.length_le]

/-- The mark of a hexadecimal number is not taken for a number and a name. -/
theorem takes_hexNumber {t : Text} (hne : t ≠ []) (hdigits : ∀ d ∈ t, isHexDigit d = true)
    (h : ('x' :: t : Text) <+: rest) :
    Takes '0' rest (some .hexNumber) ('0' :: 'x' :: t) := by
  obtain ⟨behind, rfl⟩ := h
  have hle : t.length ≤ runLength isHexDigit (t ++ behind) :=
    length_le_runLength hdigits (List.prefix_append _ _)
  have hpos := List.length_pos_iff.mpr hne
  have hshape : numberShape '0' (('x' :: t : Text) ++ behind) =
      (.hexNumber, 1 + runLength isHexDigit (t ++ behind)) :=
    if_pos ⟨rfl, rfl, by
      rw [List.cons_append, List.drop_succ_cons, List.drop_zero]
      omega⟩
  refine ⟨_, _, lexeme?_of_isDigit (by decide) _, ?_, fun _ => ?_⟩
  · rw [hshape, List.length_cons, List.length_cons]
    omega
  · rw [hshape]

theorem takes_int {t : Text} (hc : c.isDigit = true) (hdigits : ∀ d ∈ t, d.isDigit = true)
    (h : t <+: rest) : Takes c rest (some .int) (c :: t) := by
  have hle := length_le_runLength hdigits h
  refine ⟨_, _, lexeme?_of_isDigit hc rest, ?_⟩
  rw [numberShape, List.length_cons]
  dsimp only
  split
  · next hmark =>
    -- No digit stands where the mark does.
    obtain ⟨more, rfl⟩ := List.head?_eq_some_iff.mp hmark.2.1
    rw [runLength, List.takeWhile_cons_of_neg (by decide), List.length_nil] at hle
    exact ⟨by omega, fun hlength => by omega⟩
  split
  · exact ⟨by omega, fun hlength => by omega⟩
  · exact ⟨by omega, fun _ => rfl⟩

theorem takes_decimal {t u : Text} (hc : c.isDigit = true) (hdigits : ∀ d ∈ t, d.isDigit = true)
    (hne : u ≠ []) (hplaces : ∀ d ∈ u, d.isDigit = true)
    (h : t ++ ('.' : CodePoint) :: u <+: rest) :
    Takes c rest (some .decimal) (c :: (t ++ ('.' : CodePoint) :: u)) := by
  obtain ⟨behind, rfl⟩ := h
  rw [List.append_assoc, List.cons_append]
  have hwhole : runLength CodePoint.isDigit (t ++ ('.' : CodePoint) :: (u ++ behind)) = t.length :=
    runLength_of_forall hdigits (by rintro _ ⟨⟩; rfl)
  have hle : u.length ≤ runLength CodePoint.isDigit (u ++ behind) :=
    length_le_runLength hplaces (List.prefix_append _ _)
  have hpos := List.length_pos_iff.mpr hne
  have hmark : (t ++ ('.' : CodePoint) :: (u ++ behind)).head? ≠ some ('x' : CodePoint) := by
    cases t with
    | nil => exact (by decide : some ('.' : CodePoint) ≠ some ('x' : CodePoint))
    | cons d t =>
      rintro ⟨⟩
      exact absurd (hdigits _ List.mem_cons_self) (by decide)
  have hshape : numberShape c (t ++ ('.' : CodePoint) :: (u ++ behind)) =
      (.decimal, t.length + 1 + runLength CodePoint.isDigit (u ++ behind)) := by
    rw [numberShape, if_neg fun hx => hmark hx.2.1]
    simp only [hwhole, List.drop_left, List.head?_cons, List.drop_succ_cons, List.drop_zero]
    exact if_pos ⟨trivial, by omega⟩
  refine ⟨_, _, lexeme?_of_isDigit hc _, ?_, fun _ => ?_⟩
  · simp only [hshape, List.length_cons, List.length_append]
    omega
  · rw [hshape]

theorem stringLength?_of_isStringBody {t : Text} (h : IsStringBody t) (behind : Text) :
    stringLength? (t ++ ('"' : CodePoint) :: behind) = some (t.length + 1) := by
  induction h with
  | nil => exact stringLength?_quote behind
  | plain hquote hback hfeed _ ih =>
    rw [List.cons_append, stringLength?_plain hquote hfeed hback, ih]
    rfl
  | escape hfeed _ ih =>
    rw [List.cons_append, List.cons_append, stringLength?_backslash hfeed, ih]
    rfl

theorem takes_string {t : Text} (hbody : IsStringBody t)
    (h : t ++ [('"' : CodePoint)] <+: rest) :
    Takes '"' rest (some .string) ('"' :: (t ++ [('"' : CodePoint)])) := by
  obtain ⟨behind, rfl⟩ := h
  refine ⟨some .string, t.length + 1, ?_, by simp, fun _ => rfl⟩
  rw [List.append_assoc, List.singleton_append]
  exact congrArg (Option.map _) (stringLength?_of_isStringBody hbody behind)

/-- A symbol of one code point may be the beginning of one of two. -/
theorem takes_symbol {kind : TokenKind} (hmem : (c, kind) ∈ symbols) (rest : Text) :
    Takes c rest (some kind) [c] := by
  have hstarts : ∀ s ∈ symbols, isBlank s.1 = false ∧ s.1 ≠ '/' ∧ startsValue s.1 = false := by
    decide
  have hlookup : ∀ s ∈ symbols, symbols.lookup s.1 = some s.2 := by decide
  rw [Takes, lexeme?_of_symbol (hstarts _ hmem), symbolShape?]
  split
  · exact ⟨_, _, rfl, by simp, by simp⟩
  · rw [hlookup _ hmem]
    exact ⟨_, _, rfl, by simp, fun _ => rfl⟩

theorem takes_double {d : CodePoint} {kind : TokenKind} (hmem : ((c, d), kind) ∈ doubleSymbols)
    (h : [d] <+: rest) : Takes c rest (some kind) [c, d] := by
  have hstarts : ∀ s ∈ doubleSymbols,
      isBlank s.1.1 = false ∧ s.1.1 ≠ '/' ∧ startsValue s.1.1 = false := by decide
  have hlookup : ∀ s ∈ doubleSymbols, doubleSymbols.lookup s.1 = some s.2 := by decide
  obtain ⟨behind, rfl⟩ := h
  refine ⟨some kind, 1, ?_, by simp, fun _ => rfl⟩
  rw [lexeme?_of_symbol (hstarts _ hmem), symbolShape?, List.singleton_append, List.head?_cons,
    Option.bind_some, hlookup _ hmem]
  rfl

/-- A token that is written in one way only is a word or a symbol. -/
theorem takes_fixed {t : Text} {kind : TokenKind} (hmem : (t, kind) ∈ spellings)
    (h : t <+: c :: rest) : Takes c rest (some kind) t := by
  have hshapes : ∀ s ∈ spellings,
      (∃ x ∈ symbols, s = ([x.1], x.2)) ∨ (∃ x ∈ doubleSymbols, s = ([x.1.1, x.1.2], x.2)) ∨
        s.1.head?.any isNameStart = true ∧ (∀ d ∈ s.1, isNamePart d = true) ∧
          nameKind s.1 = s.2 := by decide
  rcases hshapes _ hmem with ⟨x, hx, heq⟩ | ⟨x, hx, heq⟩ | ⟨hstart, hparts, hkind⟩
  · obtain ⟨rfl, rfl⟩ := Prod.mk.inj heq
    obtain ⟨rfl, -⟩ := List.cons_prefix_cons.mp h
    exact takes_symbol hx rest
  · obtain ⟨rfl, rfl⟩ := Prod.mk.inj heq
    obtain ⟨rfl, h'⟩ := List.cons_prefix_cons.mp h
    exact takes_double hx h'
  · dsimp only at hstart hparts hkind
    cases t with
    | nil => cases hstart
    | cons d t =>
      obtain ⟨rfl, h'⟩ := List.cons_prefix_cons.mp h
      rw [← hkind]
      exact takes_word hstart (List.forall_mem_cons.mp hparts).2 h'

/-- **No lexeme is longer** than what the scanner takes, one case for each way to write one. -/
theorem takes_of_isLexeme {t : Text} (ht : IsLexeme kind? t) (h : t <+: c :: rest) :
    Takes c rest kind? t := by
  cases ht with
  | blank mem =>
    obtain ⟨rfl, -⟩ := List.cons_prefix_cons.mp h
    refine ⟨none, 0, ?_, by simp, fun _ => rfl⟩
    rw [lexeme?, if_pos (isBlank_iff.mpr mem)]
  | comment feed =>
    obtain ⟨rfl, h'⟩ := List.cons_prefix_cons.mp h
    exact takes_comment feed h'
  | fixed mem => exact takes_fixed mem h
  | @name c t start parts free =>
    obtain ⟨rfl, h'⟩ := List.cons_prefix_cons.mp h
    rcases nameKind_eq_name_or_mem (c :: t) with hname | hmem
    · rw [← hname]
      exact takes_word start parts h'
    · exact absurd hmem (free _)
  | hexNumber ne digits =>
    obtain ⟨rfl, h'⟩ := List.cons_prefix_cons.mp h
    exact takes_hexNumber ne digits h'
  | int ne digits =>
    obtain ⟨d, t, rfl⟩ := List.exists_cons_of_ne_nil ne
    obtain ⟨rfl, h'⟩ := List.cons_prefix_cons.mp h
    rw [List.forall_mem_cons] at digits
    exact takes_int digits.1 digits.2 h'
  | decimal ne digits ne' digits' =>
    obtain ⟨d, t, rfl⟩ := List.exists_cons_of_ne_nil ne
    obtain ⟨rfl, h'⟩ := List.cons_prefix_cons.mp h
    rw [List.forall_mem_cons] at digits
    exact takes_decimal digits.1 digits.2 ne' digits' h'
  | string body =>
    obtain ⟨rfl, h'⟩ := List.cons_prefix_cons.mp h
    exact takes_string body h'

/-! ### The longest lexeme -/

/-- **The scanner takes the longest lexeme** that a text begins with, for its kind. -/
theorem isLongest_iff {t : Text} : IsLongest kind? t (c :: rest) ↔
    ∃ length, lexeme? c rest = some (kind?, length) ∧ t = c :: rest.take length := by
  constructor
  · rintro ⟨hlexeme, hbegins, hlongest⟩
    obtain ⟨found?, length, hfound, hle, hkind⟩ := takes_of_isLexeme hlexeme hbegins
    obtain ⟨hlength, hfound'⟩ := isLexeme_of_lexeme? hfound
    have htake : (c :: rest.take length).length = length + 1 := by
      rw [List.length_cons, List.length_take, Nat.min_eq_left hlength]
    have hbegins' : c :: rest.take length <+: c :: rest :=
      List.cons_prefix_cons.mpr ⟨rfl, List.take_prefix _ _⟩
    have hsame : t.length = length + 1 :=
      Nat.le_antisymm hle (htake ▸ hlongest _ _ hfound' hbegins')
    obtain rfl := hkind hsame
    refine ⟨length, hfound, ?_⟩
    rw [List.prefix_iff_eq_take.mp hbegins, hsame, List.take_succ_cons]
  · rintro ⟨length, hfound, rfl⟩
    obtain ⟨hlength, hlexeme⟩ := isLexeme_of_lexeme? hfound
    refine ⟨hlexeme, List.cons_prefix_cons.mpr ⟨rfl, List.take_prefix _ _⟩, fun other? t ht h => ?_⟩
    obtain ⟨found?, length', hfound', hle, -⟩ := takes_of_isLexeme ht h
    cases hfound.symm.trans hfound'
    rwa [List.length_cons, List.length_take, Nat.min_eq_left hlength]

/-- **The scanner is stuck** only where no lexeme begins. -/
theorem lexeme?_eq_none_iff :
    lexeme? c rest = none ↔ ∀ kind? t, IsLexeme kind? t → ¬t <+: c :: rest := by
  constructor
  · intro hnone kind? t ht h
    obtain ⟨found?, length, hfound, -⟩ := takes_of_isLexeme ht h
    cases hnone.symm.trans hfound
  · intro hno
    cases hfound : lexeme? c rest with
    | none => rfl
    | some found =>
      refine absurd ?_ (hno _ _ (isLexeme_of_lexeme? hfound).2)
      exact List.cons_prefix_cons.mpr ⟨rfl, List.take_prefix _ _⟩

end TypedMemory.Token
