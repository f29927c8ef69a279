import TypedMemory.Json.Parse
import TypedMemory.Json.Render
import TypedMemory.Proofs.Encoding

/-!
# Texts in JSON

A text is written between quotes in basic characters only, and read back as the text it was
(`TypedMemory.Json.text_quoted`), if no surrogate is in it. Reading takes two steps: escapes are
resolved one by one, which gives the 16-bit units of the text as if they were code points
(`TypedMemory.Json.unescaped_escaped`), and then the pairs among them are joined
(`TypedMemory.Json.joinPairs_units`). The second step hangs on the text having no surrogates of
its own: two of them next to each other would be joined as well.
-/

namespace TypedMemory

/-! ### Four hexadecimal digits -/

namespace Numeral

/-- A digit below sixteen as it is written. -/
def hexPoint (d : Nat) : CodePoint := CodePoint.ofChar d.digitChar

theorem hexDigit?_hexPoint : ∀ d < 16, (hexPoint d).hexDigit? = some d := by decide

theorem val_hexPoint : ∀ d < 16, 0x20 ≤ (hexPoint d).val ∧ (hexPoint d).val < 0x7F := by decide

/-- The last digit stands behind those of the rest of the number. -/
theorem paddedHex_succ (width n : Nat) :
    paddedHex (width + 2) n = paddedHex (width + 1) (n / 16) ++ [hexPoint (n % 16)] := by
  rcases Nat.lt_or_ge n 16 with hn | hn
  · have hdigits : digits 16 n = [hexPoint n] := by
      rw [digits, Nat.toDigits_of_lt_base hn]
      rfl
    have hzero : digits 16 0 = [('0' : CodePoint)] := by decide
    rw [paddedHex, paddedHex, hdigits, Nat.div_eq_of_lt hn, Nat.mod_eq_of_lt hn, hzero,
      List.length_singleton, List.length_singleton, Nat.add_sub_cancel, ← List.replicate_succ']
    rfl
  · have hdigits : digits 16 n = digits 16 (n / 16) ++ [hexPoint (n % 16)] := by
      rw [digits, Nat.toDigits_of_base_le (by decide) hn, List.map_append]
      rfl
    have hwidth : width + 2 - ((digits 16 (n / 16)).length + 1) =
        width + 1 - (digits 16 (n / 16)).length := Nat.add_sub_add_right _ 1 _
    rw [paddedHex, paddedHex, hdigits, List.length_append, List.length_singleton, hwidth,
      List.append_assoc]

/-- The four digits of a 16-bit unit. -/
theorem paddedHex_four {n : Nat} (h : n < 0x10000) :
    paddedHex 4 n = [hexPoint (n / 16 / 16 / 16), hexPoint (n / 16 / 16 % 16),
      hexPoint (n / 16 % 16), hexPoint (n % 16)] := by
  have hfirst : paddedHex 1 (n / 16 / 16 / 16) = [hexPoint (n / 16 / 16 / 16)] := by
    rw [paddedHex, digits, Nat.toDigits_of_lt_base (by omega)]
    rfl
  rw [paddedHex_succ, paddedHex_succ, paddedHex_succ, hfirst]
  rfl

end Numeral

namespace Json

open Numeral (paddedHex hexPoint)

theorem hex4?_hexPoint {n : Nat} (h : n < 0x10000) :
    hex4? (hexPoint (n / 16 / 16 / 16)) (hexPoint (n / 16 / 16 % 16)) (hexPoint (n / 16 % 16))
      (hexPoint (n % 16)) = some n := by
  rw [hex4?, Numeral.hexDigit?_hexPoint _ (by omega), Numeral.hexDigit?_hexPoint _ (by omega),
    Numeral.hexDigit?_hexPoint _ (by omega), Numeral.hexDigit?_hexPoint _ (by omega)]
  refine congrArg some ?_
  omega

/-! ### How a code point is written -/

/-- What is written as a letter behind a backslash. -/
def letters : List (CodePoint × CodePoint) :=
  [('"', '"'), ('\\', '\\'), ('\n', 'n'), ('\r', 'r'), ('\t', 't'), ('\x0c', 'f'), ('\x08', 'b')]

/-- How a 16-bit unit is written. -/
def unitText (n : Nat) : Text := "\\u" ++ paddedHex 4 n

/-- A code point stands as a letter behind a backslash, as it is, or as its 16-bit units. -/
theorem escaped_eq (c : CodePoint) :
    (∃ e, (c, e) ∈ letters ∧ escaped c = [('\\' : CodePoint), e]) ∨
    (escaped c = [c] ∧ c ≠ '"' ∧ c ≠ '\\' ∧ 0x20 ≤ c.val ∧ c.val < 0x7F) ∨
    escaped c = (Encoding.utf16Units c).flatMap unitText := by
  by_cases hc : ∃ e, (c, e) ∈ letters
  · obtain ⟨e, he⟩ := hc
    have hletter : ∀ p ∈ letters, escaped p.1 = [('\\' : CodePoint), p.2] := by decide
    exact .inl ⟨e, he, hletter _ he⟩
  · have hne : ∀ p ∈ letters, c ≠ p.1 := fun p hp heq => hc ⟨p.2, heq ▸ hp⟩
    simp only [letters, List.forall_mem_cons] at hne
    obtain ⟨hquote, hback, hfeed, hreturn, htab, hpage, hbackspace, -⟩ := hne
    rw [escaped, if_neg hquote, if_neg hback, if_neg hfeed, if_neg hreturn, if_neg htab,
      if_neg hpage, if_neg hbackspace]
    by_cases hplain : 0x20 ≤ c.val ∧ c.val < 0x7F
    · rw [if_pos hplain]
      exact .inr (.inl ⟨rfl, hquote, hback, hplain⟩)
    · rw [if_neg hplain]
      exact .inr (.inr rfl)

/-- What is written is basic, and no control. -/
theorem val_of_mem_escaped {c d : CodePoint} (h : d ∈ escaped c) : 0x20 ≤ d.val ∧ d.val < 0x7F := by
  rcases escaped_eq c with ⟨e, hletter, he⟩ | ⟨he, -, -, hplain⟩ | he
  · have hbasic : ∀ p ∈ letters, ∀ d ∈ [('\\' : CodePoint), p.2], 0x20 ≤ d.val ∧ d.val < 0x7F := by
      decide
    exact hbasic _ hletter d (he ▸ h)
  · rw [he] at h
    exact List.mem_singleton.mp h ▸ hplain
  · rw [he] at h
    obtain ⟨unit, hunit, hd⟩ := List.mem_flatMap.mp h
    have hlt := Encoding.utf16Units_lt c unit hunit
    have hmark : ∀ d ∈ ("\\u" : Text), 0x20 ≤ d.val ∧ d.val < 0x7F := by decide
    rw [unitText, List.mem_append, Numeral.paddedHex_four hlt] at hd
    rcases hd with hd | hd
    · exact hmark d hd
    · simp only [List.mem_cons, List.not_mem_nil, or_false] at hd
      rcases hd with rfl | rfl | rfl | rfl <;> exact Numeral.val_hexPoint _ (by omega)

/-! ### Escapes resolved -/

/-- The 16-bit units of a code point, each as a code point. -/
def units (c : CodePoint) : Text := (Encoding.utf16Units c).map CodePoint.ofNat

theorem units_of_lt {c : CodePoint} (h : c.val < 0x10000) : units c = [c] := by
  rw [units, Encoding.utf16Units, if_pos h, List.map_singleton, CodePoint.ofNat_val]

/-- A text with another one put in front of it, where escapes have been resolved. -/
def inFront (s : Text) (r : Text × Text) : Text × Text := (s ++ r.1, r.2)

theorem unescaped_plain {c : CodePoint} (hquote : c ≠ '"') (hlow : 0x20 ≤ c.val) (hback : c ≠ '\\')
    (t : Text) : unescaped (c :: t) = (unescaped t).map (inFront [c]) := by
  rw [unescaped.eq_def]
  simp only [if_neg hquote, if_neg (Nat.not_lt.mpr hlow), if_neg hback]
  cases unescaped t <;> rfl

theorem unescaped_letter {e c : CodePoint} (he : e ≠ 'u') (h : escapeLetters.lookup e = some c)
    (t : Text) :
    unescaped (('\\' : CodePoint) :: e :: t) = (unescaped t).map (inFront [c]) := by
  have hquote : ¬('\\' : CodePoint) = '"' := by decide
  have hlow : ¬(('\\' : CodePoint)).val < 0x20 := by decide
  rw [unescaped.eq_def]
  simp only [if_neg hquote, if_neg hlow, if_pos, if_neg he, h]
  cases unescaped t <;> rfl

theorem unescaped_unit {n : Nat} (hn : n < 0x10000) (t : Text) :
    unescaped (unitText n ++ t) = (unescaped t).map (inFront [CodePoint.ofNat n]) := by
  have htext : ∀ a b c d : CodePoint, ("\\u" : Text) ++ [a, b, c, d] ++ t =
      ('\\' : CodePoint) :: ('u' : CodePoint) :: a :: b :: c :: d :: t := fun _ _ _ _ => rfl
  have hquote : ¬('\\' : CodePoint) = '"' := by decide
  have hlow : ¬(('\\' : CodePoint)).val < 0x20 := by decide
  rw [unitText, Numeral.paddedHex_four hn, htext, unescaped.eq_def]
  simp only [if_neg hquote, if_neg hlow, if_pos, hex4?_hexPoint hn]
  cases unescaped t <;> rfl

theorem unescaped_units {ns : List Nat} (hns : ∀ n ∈ ns, n < 0x10000) (t : Text) :
    unescaped (ns.flatMap unitText ++ t) =
      (unescaped t).map (inFront (ns.map CodePoint.ofNat)) := by
  induction ns with
  | nil => exact (congrFun Except.map_id (unescaped t)).symm
  | cons n ns ih =>
    obtain ⟨hn, hns⟩ := List.forall_mem_cons.mp hns
    rw [List.flatMap_cons, List.append_assoc, unescaped_unit hn, ih hns]
    cases unescaped t <;> rfl

/-- **What is written for a code point** is read as its units. -/
theorem unescaped_escaped (c : CodePoint) (t : Text) :
    unescaped (escaped c ++ t) = (unescaped t).map (inFront (units c)) := by
  rcases escaped_eq c with ⟨e, hletter, he⟩ | ⟨he, hquote, hback, hlow, hc⟩ | he
  · have hletters : ∀ p ∈ letters, p.1.val < 0x10000 ∧ p.2 ≠ 'u' ∧
        escapeLetters.lookup p.2 = some p.1 := by decide
    obtain ⟨hc, hu, hlookup⟩ := hletters _ hletter
    rw [he, units_of_lt hc]
    exact unescaped_letter hu hlookup t
  · rw [he, units_of_lt (by omega)]
    exact unescaped_plain hquote hlow hback t
  · rw [he, units]
    exact unescaped_units (Encoding.utf16Units_lt c) t

theorem unescaped_flatMap (s behind : Text) :
    unescaped (s.flatMap escaped ++ ('"' : CodePoint) :: behind) =
      .ok (s.flatMap units, behind) := by
  induction s with
  | nil =>
    rw [List.flatMap_nil, List.nil_append, unescaped.eq_def]
    rfl
  | cons c s ih =>
    rw [List.flatMap_cons, List.append_assoc, unescaped_escaped, ih]
    rfl

/-! ### Pairs joined -/

theorem joinPairs_cons {c : CodePoint} (h : c.isHighSurrogate = false) (t : Text) :
    joinPairs (c :: t) = c :: joinPairs t := by
  cases t with
  | nil => rfl
  | cons d t => rw [joinPairs, h, Bool.false_and, if_neg Bool.false_ne_true]

/-- **The units of a code point** are joined to it, unless it is a surrogate. -/
theorem joinPairs_units {c : CodePoint} (h : c.isSurrogate = false) (t : Text) :
    joinPairs (units c ++ t) = c :: joinPairs t := by
  have hlt := c.isLt
  by_cases hc : c.val < 0x10000
  · rw [units_of_lt hc, List.singleton_append]
    refine joinPairs_cons ?_ t
    simp only [CodePoint.isSurrogate, CodePoint.isHighSurrogate, Bool.and_eq_false_iff,
      decide_eq_false_iff_not] at h ⊢
    omega
  · have hhigh := CodePoint.val_ofNat (n := 0xD800 + (c.val - 0x10000) / 0x400) (by omega)
    have hlow := CodePoint.val_ofNat (n := 0xDC00 + (c.val - 0x10000) % 0x400) (by omega)
    have hpair : ((CodePoint.ofNat (0xD800 + (c.val - 0x10000) / 0x400)).isHighSurrogate &&
        (CodePoint.ofNat (0xDC00 + (c.val - 0x10000) % 0x400)).isLowSurrogate) = true := by
      simp only [CodePoint.isHighSurrogate, CodePoint.isLowSurrogate, hhigh, hlow,
        Bool.and_eq_true, decide_eq_true_eq]
      omega
    rw [units, Encoding.utf16Units, if_neg hc]
    simp only [List.map_cons, List.map_nil, List.cons_append, List.nil_append]
    rw [joinPairs, if_pos hpair, hhigh, hlow, CodePoint.ofNat_eq c (by omega)]

theorem joinPairs_flatMap {s : Text} (h : ∀ c ∈ s, c.isSurrogate = false) :
    joinPairs (s.flatMap units) = s := by
  induction s with
  | nil => rfl
  | cons c s ih =>
    obtain ⟨hc, hs⟩ := List.forall_mem_cons.mp h
    rw [List.flatMap_cons, joinPairs_units hc, ih hs]

/-- **A text between quotes is read back**, in front of anything. -/
theorem text_quoted {s : Text} (h : ∀ c ∈ s, c.isSurrogate = false) (behind : Text) :
    text (s.flatMap escaped ++ ('"' : CodePoint) :: behind) = .ok (s, behind) := by
  rw [text, unescaped_flatMap]
  exact congrArg (fun t => Except.ok (t, behind)) (joinPairs_flatMap h)

end Json

end TypedMemory
