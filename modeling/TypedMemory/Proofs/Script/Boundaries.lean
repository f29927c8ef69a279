import TypedMemory.Proofs.Script.Numerals

/-!
# Where tokens end

A scanner that takes the longest token at each place looks ahead, so what a text is made of can
hang on what is behind it. There are code points at which it cannot
(`TypedMemory.Token.IsBreak`): no name, number or symbol goes on with one. Strings end by
themselves, so all that is left to go on over such a code point is a comment, unless the code
point is the line feed that ends it.

`TypedMemory.Token.scanFrom_append` says what follows: **the tokens of a text stay what they
are** in front of a break, if the text does not end in a comment
(`TypedMemory.Token.endsInComment`) or the break is a line feed.
-/

namespace TypedMemory

theorem Position.behind_append (p : Position) (s t : Text) :
    p.behind (s ++ t) = (p.behind s).behind t := List.foldl_append

namespace Token

/-! ### Runs of a class -/

theorem runLength_le (p : CodePoint → Bool) (t : Text) : runLength p t ≤ t.length :=
  (List.takeWhile_sublist p).length_le

/-- What is not of the class ends the run. -/
theorem runLength_append {p : CodePoint → Bool} {c : CodePoint} (hc : p c = false)
    (t behind : Text) : runLength p (t ++ c :: behind) = runLength p t := by
  induction t with
  | nil => simp [runLength, hc]
  | cons d rest ih =>
    simp only [runLength, List.cons_append, List.takeWhile_cons] at ih ⊢
    split
    · rw [List.length_cons, List.length_cons, ih]
    · rfl

/-- A run that ends within a text does not see what is behind the text. -/
theorem runLength_append_of_ne {p : CodePoint → Bool} {t : Text} (h : runLength p t ≠ t.length)
    (behind : Text) : runLength p (t ++ behind) = runLength p t :=
  congrArg List.length (List.takeWhile_append.trans (if_neg h))

theorem take_runLength (p : CodePoint → Bool) (t : Text) : t.take (runLength p t) = t.takeWhile p :=
  (List.prefix_iff_eq_take.mp (List.takeWhile_prefix p)).symm

theorem runLength_of_forall {p : CodePoint → Bool} {t behind : Text} (ht : ∀ c ∈ t, p c = true)
    (hbehind : ∀ c ∈ behind.head?, p c = false) : runLength p (t ++ behind) = t.length := by
  rw [runLength, List.takeWhile_append_of_pos ht]
  cases behind with
  | nil => rw [List.takeWhile_nil, List.append_nil]
  | cons c rest => rw [List.takeWhile_cons_of_neg (by simp [hbehind c rfl]), List.append_nil]

/-! ### What begins a name or a number -/

/-- What comes from the first digit on is neither blank nor a slash. -/
theorem not_blank_of_le {c : CodePoint} (h : 48 ≤ c.val) : isBlank c = false ∧ c ≠ '/' := by
  have hne : ∀ d : CodePoint, d.val < 48 → c ≠ d := by
    rintro d hd rfl
    omega
  have hspace := hne ' ' (by decide)
  have htab := hne '\t' (by decide)
  have hpage := hne '\x0c' (by decide)
  have hreturn := hne '\r' (by decide)
  have hfeed := hne '\n' (by decide)
  exact ⟨by simp [isBlank, hspace, htab, hpage, hreturn, hfeed], hne '/' (by decide)⟩

theorem le_of_isNameStart {c : CodePoint} (h : isNameStart c = true) : 65 ≤ c.val := by
  simp only [isNameStart, CodePoint.isLetter, Bool.or_eq_true, Bool.and_eq_true,
    decide_eq_true_eq] at h
  rcases h with (h | h) | rfl
  · exact h.1
  · omega
  · decide

theorem lexeme?_of_isNameStart {c : CodePoint} (h : isNameStart c = true) (rest : Text) :
    lexeme? c rest = some (some (nameKind (c :: rest.takeWhile isNamePart)),
      runLength isNamePart rest) := by
  have hle := le_of_isNameStart h
  obtain ⟨hblank, hslash⟩ := not_blank_of_le (c := c) (by omega)
  rw [lexeme?, hblank, if_neg Bool.false_ne_true, if_neg fun hslashes => hslash hslashes.1,
    if_pos h, ← take_runLength]

theorem lexeme?_of_isDigit {c : CodePoint} (h : c.isDigit = true) (rest : Text) :
    lexeme? c rest = some (some (numberShape c rest).1, (numberShape c rest).2) := by
  have hval : 48 ≤ c.val ∧ c.val ≤ 57 := by
    simpa only [CodePoint.isDigit, Bool.and_eq_true, decide_eq_true_eq] using h
  obtain ⟨hblank, hslash⟩ := not_blank_of_le hval.1
  have hstart : isNameStart c = false := Bool.eq_false_iff.mpr fun hstart => by
    have := le_of_isNameStart hstart
    omega
  rw [lexeme?, hblank, if_neg Bool.false_ne_true, if_neg fun hslashes => hslash hslashes.1,
    hstart, if_neg Bool.false_ne_true, if_pos h]

/-! ### Breaks -/

/-- Nothing goes on with this code point, but for strings and comments. -/
structure IsBreak (e : CodePoint) : Prop where
  namePart : isNamePart e = false
  point : e ≠ '.'
  slash : e ≠ '/'
  double : ∀ s ∈ doubleSymbols, s.1.2 ≠ e

theorem isBreak_feed : IsBreak '\n' := ⟨by decide, by decide, by decide, by decide⟩

theorem isBreak_quote : IsBreak '"' := ⟨by decide, by decide, by decide, by decide⟩

theorem isNamePart_of_isHexDigit {c : CodePoint} (h : isHexDigit c = true) :
    isNamePart c = true := by
  simp only [isHexDigit, CodePoint.hexDigit?] at h
  simp only [isNamePart, isNameStart, CodePoint.isLetter, Bool.or_eq_true, Bool.and_eq_true,
    decide_eq_true_eq]
  split at h
  · next hdigit => exact .inr hdigit
  split at h
  · next hlarge =>
    rw [Bool.and_eq_true, decide_eq_true_eq, decide_eq_true_eq] at hlarge
    exact .inl (.inl (.inl ⟨hlarge.1, by omega⟩))
  split at h
  · next hsmall =>
    rw [Bool.and_eq_true, decide_eq_true_eq, decide_eq_true_eq] at hsmall
    exact .inl (.inl (.inr ⟨hsmall.1, by omega⟩))
  · cases h

theorem IsBreak.digit {e : CodePoint} (he : IsBreak e) : e.isDigit = false :=
  (Bool.or_eq_false_iff.mp he.namePart).2

theorem IsBreak.hexDigit {e : CodePoint} (he : IsBreak e) : isHexDigit e = false :=
  Bool.eq_false_iff.mpr fun h => Bool.eq_false_iff.mp he.namePart (isNamePart_of_isHexDigit h)

theorem IsBreak.mark {e : CodePoint} (he : IsBreak e) : e ≠ 'x' := by
  rintro rfl
  exact absurd he.namePart (by decide)

theorem stringLength?_quote (rest : Text) :
    stringLength? (('"' : CodePoint) :: rest) = some 1 := by
  rw [stringLength?.eq_def]
  rfl

theorem stringLength?_backslash {d : CodePoint} (hd : d ≠ '\n') (rest : Text) :
    stringLength? (('\\' : CodePoint) :: d :: rest) = (stringLength? rest).map (· + 2) := by
  rw [stringLength?.eq_def]
  exact if_neg hd

theorem stringLength?_plain {c : CodePoint} (hquote : c ≠ '"') (hend : c ≠ '\n')
    (hback : c ≠ '\\') (rest : Text) :
    stringLength? (c :: rest) = (stringLength? rest).map (· + 1) := by
  rw [stringLength?.eq_def]
  simp only [if_neg hquote, if_neg hend, if_neg hback]

/-- A string that ends does not see what is behind it. -/
theorem stringLength?_append {t : Text} {n : Nat} (h : stringLength? t = some n) (behind : Text) :
    n ≤ t.length ∧ stringLength? (t ++ behind) = some n := by
  fun_induction stringLength? t generalizing n with
  | case1 | case3 | case4 | case5 => cases h
  | case2 rest =>
    cases h
    exact ⟨Nat.le_add_left 1 rest.length, stringLength?_quote (rest ++ behind)⟩
  | case6 d rest hd _ _ ih =>
    obtain ⟨k, hk, rfl⟩ := Option.map_eq_some_iff.mp h
    obtain ⟨hle, hk⟩ := ih hk
    refine ⟨Nat.add_le_add_right hle 2, ?_⟩
    rw [List.cons_append, List.cons_append, stringLength?_backslash hd, hk]
    rfl
  | case7 c rest hquote hend hback ih =>
    obtain ⟨k, hk, rfl⟩ := Option.map_eq_some_iff.mp h
    obtain ⟨hle, hk⟩ := ih hk
    refine ⟨Nat.add_le_add_right hle 1, ?_⟩
    rw [List.cons_append, stringLength?_plain hquote hend hback, hk]
    rfl

theorem numberShape_le (c : CodePoint) (rest : Text) : (numberShape c rest).2 ≤ rest.length := by
  have hlength : ∀ {t : Text} {d : CodePoint}, t.head? = some d → 0 < t.length := by
    intro t d hd
    obtain ⟨more, rfl⟩ := List.head?_eq_some_iff.mp hd
    exact Nat.succ_pos _
  have hwhole := runLength_le CodePoint.isDigit rest
  have hhex := runLength_le isHexDigit (rest.drop 1)
  have hplaces := runLength_le CodePoint.isDigit
    ((rest.drop (runLength CodePoint.isDigit rest)).drop 1)
  simp only [List.length_drop] at hhex hplaces
  simp only [numberShape]
  split
  · next h =>
    have := hlength h.2.1
    dsimp only
    omega
  split
  · next h =>
    have := hlength h.1
    rw [List.length_drop] at this
    dsimp only
    omega
  · exact hwhole

theorem symbolShape?_le {c : CodePoint} {rest : Text} {kind : TokenKind} {length : Nat}
    (h : symbolShape? c rest = some (kind, length)) : length ≤ rest.length := by
  rw [symbolShape?] at h
  split at h
  · next k hk =>
    cases h
    obtain ⟨d, hd, -⟩ := Option.bind_eq_some_iff.mp hk
    obtain ⟨more, rfl⟩ := List.head?_eq_some_iff.mp hd
    exact Nat.le_add_left 1 more.length
  · obtain ⟨k, -, heq⟩ := Option.map_eq_some_iff.mp h
    cases heq
    exact Nat.zero_le _

/-- What is behind a code point that a text begins with, up to a break. -/
theorem runLength_drop_append {p : CodePoint → Bool} {e c : CodePoint} (hp : p e = false)
    (hc : e ≠ c) (t behind : Text) :
    (t ++ e :: behind).head? = some c ∧ runLength p ((t ++ e :: behind).drop 1) ≠ 0 ↔
      t.head? = some c ∧ runLength p (t.drop 1) ≠ 0 := by
  cases t with
  | nil => simp [hc]
  | cons d rest => simp [runLength_append hp]

section

variable {e : CodePoint} (he : IsBreak e)

include he

theorem numberShape_append (c : CodePoint) (rest behind : Text) :
    numberShape c (rest ++ e :: behind) = numberShape c rest := by
  have hwhole := runLength_append he.digit rest behind
  have hbehind : (rest ++ e :: behind).drop (runLength CodePoint.isDigit rest) =
      rest.drop (runLength CodePoint.isDigit rest) ++ e :: behind :=
    List.drop_append_of_le_length (runLength_le _ _)
  have hx := runLength_drop_append he.hexDigit he.mark rest behind
  have hpoint := runLength_drop_append he.digit he.point
    (rest.drop (runLength CodePoint.isDigit rest)) behind
  simp only [numberShape, hwhole, hbehind, hx, hpoint]
  split
  · next h =>
    obtain ⟨more, rfl⟩ := List.head?_eq_some_iff.mp h.2.1
    simp [runLength_append he.hexDigit]
  · split
    · next h =>
      obtain ⟨more, hmore⟩ := List.head?_eq_some_iff.mp h.1
      simp [hmore, runLength_append he.digit]
    · rfl

theorem symbolShape?_append (c : CodePoint) (rest behind : Text) :
    symbolShape? c (rest ++ e :: behind) = symbolShape? c rest := by
  cases rest with
  | cons d rest => rfl
  | nil =>
    have hnone : doubleSymbols.lookup (c, e) = none := by
      refine List.lookup_eq_none_iff.mpr fun s hs => bne_iff_ne.mpr fun heq => ?_
      exact he.double s hs (congrArg Prod.snd heq).symm
    simp [symbolShape?, hnone]

/-- **What starts at a place** does not see what is behind a break, unless it is a comment that
the break does not end. -/
theorem lexeme?_append {c : CodePoint} {rest : Text} {kind? : Option TokenKind} {length : Nat}
    (h : lexeme? c rest = some (kind?, length))
    (hcomment : e = '\n' ∨ ¬(c = '/' ∧ length = rest.length)) (behind : Text) :
    length ≤ rest.length ∧ lexeme? c (rest ++ e :: behind) = some (kind?, length) := by
  have hslash : (rest ++ e :: behind).head? = some ('/' : CodePoint) ↔
      rest.head? = some ('/' : CodePoint) := by
    cases rest with
    | nil => simp [he.slash]
    | cons d rest => rfl
  rw [lexeme?] at h ⊢
  simp only [hslash, runLength_append he.namePart, numberShape_append he, symbolShape?_append he]
  by_cases hblank : isBlank c = true
  · rw [if_pos hblank] at h ⊢
    cases h
    exact ⟨Nat.zero_le _, rfl⟩
  rw [if_neg hblank] at h ⊢
  by_cases hslashes : c = '/' ∧ rest.head? = some ('/' : CodePoint)
  · rw [if_pos hslashes] at h ⊢
    cases h
    refine ⟨runLength_le _ _, ?_⟩
    rcases hcomment with rfl | hends
    · rw [runLength_append (by decide)]
    · rw [runLength_append_of_ne fun hlength => hends ⟨hslashes.1, hlength⟩]
  rw [if_neg hslashes] at h ⊢
  by_cases hstart : isNameStart c = true
  · rw [if_pos hstart] at h ⊢
    cases h
    have hle := runLength_le isNamePart rest
    exact ⟨hle, by rw [List.take_append_of_le_length hle]⟩
  rw [if_neg hstart] at h ⊢
  by_cases hdigit : c.isDigit = true
  · rw [if_pos hdigit] at h ⊢
    cases h
    exact ⟨numberShape_le c rest, rfl⟩
  rw [if_neg hdigit] at h ⊢
  by_cases hquote : c = '"'
  · rw [if_pos hquote] at h ⊢
    obtain ⟨n, hn, heq⟩ := Option.map_eq_some_iff.mp h
    cases heq
    obtain ⟨hle, happend⟩ := stringLength?_append hn (e :: behind)
    exact ⟨hle, by rw [happend]; rfl⟩
  · rw [if_neg hquote] at h ⊢
    obtain ⟨⟨k, n⟩, hk, heq⟩ := Option.map_eq_some_iff.mp h
    cases heq
    exact ⟨symbolShape?_le hk, h⟩

end

/-! ### The tokens in front of a break -/

/-- The text ends in a comment, so that what is put behind it on the same line is part of that
comment. -/
def endsInComment (t : Text) : Bool :=
  match t with
  | [] => false
  | c :: rest =>
    match lexeme? c rest with
    | none => false
    | some (_, length) =>
      (c == '/' && length == rest.length) || endsInComment (rest.drop length)
termination_by t.length
decreasing_by simp only [List.length_drop, List.length_cons]; omega

/-- **A text in front of a break** has its tokens, and behind them are those of the rest. -/
theorem scanFrom_append {e : CodePoint} (he : IsBreak e) {position : Position} {offset : Nat}
    {t : Text} {tokens : List Token} (h : scanFrom position offset t = .ok tokens)
    (hcomment : e = '\n' ∨ endsInComment t = false) (behind : Text) :
    scanFrom position offset (t ++ e :: behind) =
      (scanFrom (position.behind t) (offset + t.length) (e :: behind)).map (tokens ++ ·) := by
  match t with
  | [] =>
    rw [scanFrom] at h
    cases h
    cases hscan : scanFrom position offset (e :: behind) <;>
      simp [Position.behind, hscan, Except.map]
  | c :: rest =>
    obtain ⟨kind?, length, more, hlexeme, hmore, rfl⟩ := exists_of_scanFrom_cons h
    have hends : e = '\n' ∨
        ¬(c = '/' ∧ length = rest.length) ∧ endsInComment (rest.drop length) = false :=
      hcomment.imp_right fun hends => by simpa [endsInComment, hlexeme] using hends
    obtain ⟨hle, hlexeme'⟩ := lexeme?_append he hlexeme (hends.imp_right And.left) behind
    have hrest := scanFrom_append he hmore (hends.imp_right And.right) behind
    rw [List.cons_append, scanFrom, hlexeme']
    dsimp only
    rw [List.take_append_of_le_length hle, List.drop_append_of_le_length hle, hrest]
    have hposition : (position.behind (c :: rest.take length)).behind (rest.drop length) =
        position.behind (c :: rest) := by
      rw [← Position.behind_append, List.cons_append, List.take_append_drop]
    have hoffset : offset + (c :: rest.take length).length + (rest.drop length).length =
        offset + (c :: rest).length := by
      simp
      omega
    rw [hposition, hoffset]
    cases scanFrom (position.behind (c :: rest)) (offset + (c :: rest).length) (e :: behind) <;>
      cases kind? <;> rfl
termination_by t.length
decreasing_by simp only [List.length_drop, List.length_cons]; omega

end Token

end TypedMemory
