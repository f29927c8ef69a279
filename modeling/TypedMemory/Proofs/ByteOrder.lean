import TypedMemory.ByteOrder

/-!
# Numbers come back from their bytes, and bytes from their number

Storing a number in `width` bytes and loading it again takes it modulo `256 ^ width`, in
either byte order (`TypedMemory.ByteOrder.load_store`), and storing what was loaded puts
the same bytes again (`TypedMemory.ByteOrder.store_load`). A whole number of any sign is
stored by its representative modulo the width, and read back in a range that either
starts at zero or is balanced around it (`TypedMemory.signedValue_eq_bmod`).
-/

namespace TypedMemory

/-! ### Counting words -/

theorem wordCount_pos (bits : Nat) : 0 < wordCount bits := by
  rw [wordCount, Nat.one_shiftLeft]
  exact Nat.two_pow_pos bits

theorem wordCount_add (i j : Nat) : wordCount (i + j) = wordCount i * wordCount j := by
  simp only [wordCount, Nat.one_shiftLeft, Nat.pow_add]

theorem wordCount_byte (width : Nat) :
    wordCount (8 * (width + 1)) = 256 * wordCount (8 * width) := by
  rw [Nat.mul_succ, Nat.add_comm, wordCount_add]
  rfl

theorem wordCount_succ (bits : Nat) : wordCount (bits + 1) = 2 * wordCount bits := by
  rw [Nat.add_comm, wordCount_add]
  rfl

namespace ByteOrder

/-! ### The round trip -/

@[simp] theorem length_digits (width n : Nat) : (digits width n).length = width := by
  induction width generalizing n with
  | zero => rfl
  | succ width ih => rw [digits, List.length_cons, ih]

@[simp] theorem length_store (order : ByteOrder) (width n : Nat) :
    (order.store width n).length = width := by
  cases order <;> simp [store]

theorem ofDigits_digits (width n : Nat) :
    ofDigits (digits width n) = n % wordCount (8 * width) := by
  induction width generalizing n with
  | zero => exact (Nat.mod_one n).symm
  | succ width ih =>
    rw [digits, ofDigits, ih, wordCount_byte, Nat.mod_mul]
    rfl

/-- **Loading what was stored** gives the number modulo what its bytes can hold. -/
theorem load_store (order : ByteOrder) (width n : Nat) :
    order.load (order.store width n) = n % wordCount (8 * width) := by
  cases order with
  | little => exact ofDigits_digits width n
  | big =>
    rw [store, load, List.reverse_reverse]
    exact ofDigits_digits width n

theorem load_store_of_lt (order : ByteOrder) {width n : Nat} (h : n < wordCount (8 * width)) :
    order.load (order.store width n) = n := by
  rw [load_store, Nat.mod_eq_of_lt h]

theorem ofDigits_lt (bytes : Bytes) : ofDigits bytes < wordCount (8 * bytes.length) := by
  induction bytes with
  | nil => exact wordCount_pos 0
  | cons b rest ih =>
    have hb := b.toNat_lt
    rw [ofDigits, List.length_cons, wordCount_byte]
    omega

theorem digits_ofDigits (bytes : Bytes) : digits bytes.length (ofDigits bytes) = bytes := by
  induction bytes with
  | nil => rfl
  | cons b rest ih =>
    have hb := b.toNat_lt
    have hdiv : (b.toNat + 256 * ofDigits rest) / 256 = ofDigits rest := by omega
    have hbyte : UInt8.ofNat (b.toNat + 256 * ofDigits rest) = b := by
      rw [← UInt8.toNat_inj, UInt8.toNat_ofNat']
      omega
    rw [List.length_cons, ofDigits, digits, hdiv, ih, hbyte]

theorem load_lt (order : ByteOrder) {width : Nat} {bytes : Bytes} (h : bytes.length = width) :
    order.load bytes < wordCount (8 * width) := by
  subst h
  cases order with
  | little => exact ofDigits_lt bytes
  | big =>
    rw [load, ← List.length_reverse]
    exact ofDigits_lt bytes.reverse

/-- **Storing what was loaded** puts the same bytes again. -/
theorem store_load (order : ByteOrder) {width : Nat} {bytes : Bytes} (h : bytes.length = width) :
    order.store width (order.load bytes) = bytes := by
  subst h
  cases order with
  | little => exact digits_ofDigits bytes
  | big =>
    rw [store, load, ← List.length_reverse, digits_ofDigits, List.reverse_reverse]

end ByteOrder

/-! ### Representatives -/

/-- A word whose top bit counts negatively stands for the balanced representative. -/
theorem signedValue_eq_bmod {bits n : Nat} (hb : 0 < bits) (h : n < wordCount bits) :
    signedValue bits n = (n : Int).bmod (wordCount bits) := by
  obtain ⟨k, rfl⟩ : ∃ k, bits = k + 1 := ⟨bits - 1, by omega⟩
  have hmod : (n : Int) % (wordCount (k + 1) : Nat) = n :=
    Int.emod_eq_of_lt (Int.natCast_nonneg n) (by omega)
  have hhalf := wordCount_succ k
  rw [signedValue, Int.bmod, hmod, Nat.add_sub_cancel]
  by_cases hn : n < wordCount k
  · rw [if_pos hn, if_pos (by omega)]
  · rw [if_neg hn, if_neg (by omega)]

end TypedMemory
