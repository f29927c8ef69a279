import TypedMemory.Binary64
import TypedMemory.Proofs.ByteOrder

/-!
# Numbers of a format are not rounded

Rounding gives the code of the nearest number, so the number of a code rounds to that
code (`TypedMemory.Format.round_units_mul`). A format has every whole number of units
that is short enough for its fraction and doubled not too often
(`TypedMemory.Format.exists_units_eq_shiftLeft`), and has no others
(`TypedMemory.Format.units_eq_shiftLeft`); so the 64-bit format has all numbers of the
32-bit format.

Together these make the way through the wider format one without loss: a code of the 32-bit
format, read into the 64-bit format and put back, is the code it was
(`TypedMemory.Binary64.toSingle?_ofSingle`). The codes of NaNs are the exception. They come
back with their quiet bit set.
-/

namespace TypedMemory

theorem roundedQuotient_mul (q : Nat) {b : Nat} (hb : 0 < b) : roundedQuotient (q * b) b = q := by
  simp only [roundedQuotient, Nat.mul_div_cancel q hb, Nat.mul_mod_left, Nat.mul_zero, if_pos hb]

namespace Format

/-! ### Codes and numbers -/

section Units

variable (f : Format) {m : Nat}

/-- A code of a finite number, by its exponent. -/
theorem lt_infinity_iff :
    m < f.infinity ↔ m / wordCount f.fractionBits + 1 < wordCount f.exponentBits := by
  rw [infinity, Nat.shiftLeft_eq, ← Nat.one_shiftLeft, ← wordCount,
    ← Nat.div_lt_iff_lt_mul (wordCount_pos f.fractionBits)]
  exact Nat.lt_sub_iff_add_lt

/-- A code is either a mere fraction, or an exponent with a fraction behind it. -/
theorem lt_or_exists_exponent (m : Nat) :
    m < wordCount f.fractionBits ∨ ∃ j r, r < wordCount f.fractionBits ∧
      j + 1 = m / wordCount f.fractionBits ∧ m = (j + 1) * wordCount f.fractionBits + r := by
  have hpos := wordCount_pos f.fractionBits
  rcases Nat.lt_or_ge m (wordCount f.fractionBits) with h | h
  · exact Or.inl h
  · have hquotient : 0 < m / wordCount f.fractionBits := Nat.div_pos h hpos
    refine Or.inr ⟨m / wordCount f.fractionBits - 1, m % wordCount f.fractionBits,
      Nat.mod_lt m hpos, Nat.sub_add_cancel hquotient, ?_⟩
    rw [Nat.sub_add_cancel hquotient, Nat.mul_comm, Nat.div_add_mod]

/-- The units of a code whose exponent is zero are its fraction. -/
theorem units_of_lt (h : m < wordCount f.fractionBits) : f.units m = m := by
  rw [units, Nat.shiftRight_eq_div_pow, ← Nat.one_shiftLeft, ← wordCount, Nat.div_eq_of_lt h,
    if_pos rfl, Nat.mod_eq_of_lt h]

/-- The exponent and the fraction that a code is made of. -/
theorem div_mod_of_exponent (e : Nat) {r : Nat} (h : r < wordCount f.fractionBits) :
    (e * wordCount f.fractionBits + r) / wordCount f.fractionBits = e ∧
      (e * wordCount f.fractionBits + r) % wordCount f.fractionBits = r := by
  have hpos := wordCount_pos f.fractionBits
  rw [Nat.add_comm, Nat.add_mul_div_right _ _ hpos, Nat.div_eq_of_lt h, Nat.zero_add,
    Nat.add_mul_mod_self_right, Nat.mod_eq_of_lt h]
  exact ⟨rfl, rfl⟩

/-- The units of a code with an exponent: its fraction with a one in front, shifted. -/
theorem units_of_exponent (j : Nat) {r : Nat} (h : r < wordCount f.fractionBits) :
    f.units ((j + 1) * wordCount f.fractionBits + r) = (wordCount f.fractionBits + r) <<< j := by
  obtain ⟨hdiv, hmod⟩ := f.div_mod_of_exponent (j + 1) h
  rw [units, Nat.shiftRight_eq_div_pow, ← Nat.one_shiftLeft, ← wordCount, hdiv, hmod,
    if_neg (Nat.succ_ne_zero j), Nat.add_sub_cancel]

/-- How far a fraction with a one in front is to be shifted back. -/
theorem log2_shiftLeft_sub (j : Nat) {r : Nat} (h : r < wordCount f.fractionBits) :
    Nat.log2 ((wordCount f.fractionBits + r) <<< j) - f.fractionBits = j := by
  rw [wordCount, Nat.one_shiftLeft] at h ⊢
  have hlog : Nat.log2 ((2 ^ f.fractionBits + r) <<< j) = f.fractionBits + j := by
    have hpos := Nat.two_pow_pos j
    have hnot : (2 ^ f.fractionBits + r) <<< j ≠ 0 := by
      rw [Nat.shiftLeft_eq]
      exact Nat.mul_ne_zero (by omega) (by omega)
    rw [Nat.log2_eq_iff hnot, Nat.shiftLeft_eq, Nat.add_right_comm, Nat.pow_add, Nat.pow_add _ _ j]
    refine ⟨Nat.mul_le_mul_right _ (by omega), Nat.mul_lt_mul_of_pos_right ?_ hpos⟩
    rw [Nat.pow_succ]
    omega
  rw [hlog]
  omega

/-- **The number of a code rounds to that code**, whatever it is counted in. -/
theorem round_units_mul {k : Nat} (hm : m < f.infinity) (hk : 0 < k) :
    f.round (f.units m * k) k = m := by
  rcases f.lt_or_exists_exponent m with h | ⟨j, r, hr, -, hmj⟩
  · have hshift : Nat.log2 m - f.fractionBits = 0 := by
      rcases Nat.eq_zero_or_pos m with rfl | hpos
      · exact Nat.zero_sub _
      · rw [wordCount, Nat.one_shiftLeft] at h
        exact Nat.sub_eq_zero_of_le (Nat.le_of_lt ((Nat.log2_lt (by omega)).mpr h))
    rw [f.units_of_lt h, round, Nat.mul_div_cancel m hk]
    simp only [hshift, Nat.shiftLeft_zero, roundedQuotient_mul m hk, Nat.zero_shiftLeft,
      Nat.zero_add, Nat.min_eq_left (Nat.le_of_lt hm)]
  · have hquotient : roundedQuotient ((wordCount f.fractionBits + r) <<< j * k) (k <<< j) =
        wordCount f.fractionBits + r := by
      rw [Nat.shiftLeft_eq, Nat.shiftLeft_eq, Nat.mul_assoc, Nat.mul_comm (2 ^ j) k]
      exact roundedQuotient_mul _ (Nat.mul_pos hk (Nat.two_pow_pos j))
    have hcode : j <<< f.fractionBits + (wordCount f.fractionBits + r) = m := by
      rw [hmj, Nat.shiftLeft_eq, ← Nat.one_shiftLeft, ← wordCount, Nat.succ_mul, Nat.add_assoc]
    rw [hmj, f.units_of_exponent j hr, ← hmj, round, Nat.mul_div_cancel _ hk]
    simp only [f.log2_shiftLeft_sub j hr, hquotient, hcode, Nat.min_eq_left (Nat.le_of_lt hm)]

/-- Every number of a format is a fraction with at most a one in front, shifted. -/
theorem units_eq_shiftLeft (hm : m < f.infinity) :
    ∃ s j, s < 2 * wordCount f.fractionBits ∧ j + 2 ≤ wordCount f.exponentBits ∧
      f.units m = s <<< j := by
  rw [lt_infinity_iff] at hm
  rcases f.lt_or_exists_exponent m with h | ⟨j, r, hr, hj, hmj⟩
  · rw [Nat.div_eq_of_lt h] at hm
    exact ⟨m, 0, by omega, by omega, f.units_of_lt h⟩
  · exact ⟨wordCount f.fractionBits + r, j, by omega, by omega, hmj ▸ f.units_of_exponent j hr⟩

/-- A fraction with a one in front is a number of the format for every shift that its exponents
count. -/
theorem exists_units_of_le {s j : Nat} (hle : wordCount f.fractionBits ≤ s)
    (hs : s < 2 * wordCount f.fractionBits) (hj : j + 2 < wordCount f.exponentBits) :
    ∃ m < f.infinity, f.units m = s <<< j := by
  have hr : s - wordCount f.fractionBits < wordCount f.fractionBits := by omega
  refine ⟨(j + 1) * wordCount f.fractionBits + (s - wordCount f.fractionBits), ?_, ?_⟩
  · rw [lt_infinity_iff, (f.div_mod_of_exponent (j + 1) hr).1]
    exact hj
  · rw [f.units_of_exponent j hr, Nat.add_sub_cancel' hle]

/-- **What a format has**: every fraction with at most a one in front, shifted by less than
its exponents count. -/
theorem exists_units_eq_shiftLeft {s j : Nat} (hs : s < 2 * wordCount f.fractionBits)
    (hj : j + 2 < wordCount f.exponentBits) : ∃ m < f.infinity, f.units m = s <<< j := by
  -- A fraction without a one in front borrows from the shift, until that is used up.
  induction j generalizing s with
  | zero =>
    rcases Nat.lt_or_ge s (wordCount f.fractionBits) with h | h
    · refine ⟨s, f.lt_infinity_iff.mpr ?_, f.units_of_lt h⟩
      rw [Nat.div_eq_of_lt h]
      omega
    · exact f.exists_units_of_le h hs hj
  | succ j ih =>
    rcases Nat.lt_or_ge s (wordCount f.fractionBits) with h | h
    · obtain ⟨m, hm, hunits⟩ := ih (s := 2 * s) (by omega) (by omega)
      refine ⟨m, hm, hunits.trans ?_⟩
      rw [Nat.shiftLeft_eq, Nat.shiftLeft_eq, Nat.pow_succ, Nat.mul_comm 2 s, Nat.mul_assoc,
        Nat.mul_comm 2]
    · exact f.exists_units_of_le h hs hj

end Units

end Format

/-! ### Sign and magnitude -/

namespace Format

/-- A code is its sign bit and its magnitude. -/
theorem sign_add_magnitude (f : Format) {code : Nat} (h : code < 2 * f.signWeight) :
    (if f.isNegative code then f.signWeight else 0) + f.magnitude code = code := by
  have hpos : 0 < f.signWeight := wordCount_pos _
  have hdiv : code / f.signWeight < 2 := (Nat.div_lt_iff_lt_mul hpos).mpr h
  have hcode := Nat.div_add_mod code f.signWeight
  rw [isNegative, magnitude]
  rcases Nat.lt_succ_iff_lt_or_eq.mp hdiv with hzero | hone
  · rw [Nat.lt_one_iff.mp hzero] at hcode ⊢
    simpa using hcode
  · rw [hone] at hcode ⊢
    simpa using hcode

end Format

namespace Binary64

section OfMagnitude

variable {m : Nat} (negative : Bool) (h : m < Format.double.signWeight)

include h

theorem toNat_ofMagnitude : (ofMagnitude negative m).bits.toNat =
    if negative then Format.double.signWeight + m else m := by
  have hdouble : 2 * Format.double.signWeight = 2 ^ 64 := by decide
  rw [ofMagnitude, BitVec.toNat_ofNat]
  exact Nat.mod_eq_of_lt (by split <;> omega)

theorem magnitude_ofMagnitude : (ofMagnitude negative m).magnitude = m := by
  rw [magnitude, toNat_ofMagnitude negative h, Format.magnitude]
  cases negative with
  | false => exact Nat.mod_eq_of_lt h
  | true => exact (Nat.add_mod_left _ _).trans (Nat.mod_eq_of_lt h)

theorem isNegative_ofMagnitude : (ofMagnitude negative m).isNegative = negative := by
  rw [isNegative, toNat_ofMagnitude negative h, Format.isNegative]
  cases negative with
  | false => rw [if_neg Bool.false_ne_true, Nat.div_eq_of_lt h]; rfl
  | true =>
    rw [if_pos rfl, Nat.add_div_left _ (by omega), Nat.div_eq_of_lt h]
    rfl

end OfMagnitude

/-! ### The way through the wider format -/

/-- The 64-bit format has every number of the 32-bit format. -/
theorem exists_units_eq_of_single {m : Nat} (hm : m < Format.single.infinity) :
    ∃ d < Format.double.infinity, Format.double.units d = Format.single.units m <<< singleUnit := by
  obtain ⟨s, j, hs, hj, hunits⟩ := Format.single.units_eq_shiftLeft hm
  have hfraction : 2 * wordCount Format.single.fractionBits ≤
    2 * wordCount Format.double.fractionBits := by decide
  have hexponent : wordCount Format.single.exponentBits + singleUnit <
    wordCount Format.double.exponentBits := by decide
  rw [hunits, ← Nat.shiftLeft_add]
  exact Format.double.exists_units_eq_shiftLeft (by omega) (by omega)

/-- Above the code of infinity are NaNs, in the wider format too. -/
theorem isNaN_ofSingle {code : Nat}
    (h : Format.single.infinity < Format.single.magnitude code) : (ofSingle code).isNaN = true := by
  obtain ⟨payload, hpayload⟩ : ∃ payload, payload =
    0x8000000000000 ||| (Format.single.magnitude code % wordCount 23) <<< 29 := ⟨_, rfl⟩
  have hpos : 0 < payload := by
    rw [hpayload]
    exact Nat.lt_of_lt_of_le (by decide) Nat.left_le_or
  have hlt : payload < 2 ^ 52 := by
    rw [hpayload]
    refine Nat.or_lt_two_pow (by decide) ?_
    have hfraction := Nat.mod_lt (Format.single.magnitude code) (wordCount_pos 23)
    rw [Nat.shiftLeft_eq, show (2 : Nat) ^ 52 = wordCount 23 * 2 ^ 29 by decide]
    exact Nat.mul_lt_mul_of_pos_right hfraction (by decide)
  have hroom : Format.double.infinity + 2 ^ 52 = Format.double.signWeight := by decide
  rw [ofSingle, if_pos h, ← hpayload, isNaN, magnitude_ofMagnitude _ (by omega)]
  exact decide_eq_true (Nat.lt_add_of_pos_right hpos)

/-- **A code of the 32-bit format comes back from the 64-bit format**, unless it is the code
of a NaN. -/
theorem toSingle?_ofSingle {code : Nat} (h : code < wordCount 32)
    (hnan : (ofSingle code).isNaN = false) : (ofSingle code).toSingle? = some code := by
  have hsign := Format.single.sign_add_magnitude (show code < 2 * Format.single.signWeight from h)
  have hinfinity : Format.double.infinity < Format.double.signWeight := by decide
  have hnumber : ∀ {d : Nat} (negative : Bool), d ≤ Format.double.infinity →
      (ofMagnitude negative d).magnitude = d ∧ (ofMagnitude negative d).isNegative = negative :=
    fun negative hd => ⟨magnitude_ofMagnitude negative (Nat.lt_of_le_of_lt hd hinfinity),
      isNegative_ofMagnitude negative (Nat.lt_of_le_of_lt hd hinfinity)⟩
  rcases Nat.lt_trichotomy (Format.single.magnitude code) Format.single.infinity with
    hm | hm | hm
  · obtain ⟨d, hd, hunits⟩ := exists_units_eq_of_single hm
    have hround : Format.double.round (Format.single.units (Format.single.magnitude code) <<<
        singleUnit) 1 = d := by
      rw [← hunits, ← Nat.mul_one (Format.double.units d)]
      exact Format.double.round_units_mul hd Nat.one_pos
    have hback : Format.single.round (Format.double.units d) (1 <<< singleUnit) =
        Format.single.magnitude code := by
      rw [hunits, Nat.shiftLeft_eq, Nat.one_shiftLeft]
      exact Format.single.round_units_mul hm (Nat.two_pow_pos _)
    obtain ⟨hmag, hneg⟩ := hnumber (Format.single.isNegative code) (Nat.le_of_lt hd)
    rw [ofSingle, if_neg (Nat.lt_asymm hm), if_neg (Nat.ne_of_lt hm), ofUnits, hround, toSingle?,
      isNaN, isInfinite, hmag, hneg, hback]
    simp only [decide_eq_true_eq, beq_iff_eq, if_neg (Nat.lt_asymm hd), if_neg (Nat.ne_of_lt hd),
      if_pos hm, hsign]
  · obtain ⟨hmag, hneg⟩ := hnumber (Format.single.isNegative code) (Nat.le_refl _)
    rw [ofSingle, if_neg (Nat.not_lt_of_le (Nat.le_of_eq hm)), if_pos hm, infinity, toSingle?,
      isNaN, isInfinite, hmag, hneg]
    simp only [Nat.lt_irrefl, decide_false, Bool.false_eq_true, if_false, beq_self_eq_true,
      if_true]
    rw [← hm, hsign]
  · rw [isNaN_ofSingle hm] at hnan
    cases hnan

end Binary64

end TypedMemory
