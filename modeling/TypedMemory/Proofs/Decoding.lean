import TypedMemory.Proofs.Encoding

/-!
# Coded bytes come back from their text

Decoding is strict: bytes that are decoded at all are the coded form of the text that they
are decoded to (`TypedMemory.Encoding.encode_of_decode`). In the 8-bit variable encoding this
is what the bounds of the second byte are for, which leave no code point with two coded forms.
It holds of the encodings that have no byte order mark. A mark may be missing where text is
read, and is always there where it was written.
-/

namespace TypedMemory

theorem CodePoint.isSurrogate_ofNat {n : Nat} (h : n < 0x110000) (hn : n < 0xD800 ∨ 0xDFFF < n) :
    (CodePoint.ofNat n).isSurrogate = false := by
  simp only [isSurrogate, val_ofNat h, Bool.and_eq_false_iff, decide_eq_false_iff_not]
  omega

theorem ofNat_eq_of_toNat {n : Nat} {b : UInt8} (h : n = b.toNat) : UInt8.ofNat n = b := by
  rw [h, UInt8.ofNat_toNat]

namespace Encoding

/-- **One code point further**: if the bytes of a code point come first, and what is behind them
is coded as it was decoded, so is the whole. -/
theorem encodePoints_of_map_cons {e : Encoding} {x : Except Fault Text} {c : CodePoint} {t : Text}
    {first rest : Bytes} (hc : e.encodePoint c = .ok first)
    (hrest : ∀ {t}, x = .ok t → e.encodePoints t = .ok rest) (h : x.map (c :: ·) = .ok t) :
    e.encodePoints t = .ok (first ++ rest) := by
  cases x with
  | error fault => cases h
  | ok more =>
    cases h
    exact encodePoints_cons_eq_ok_iff.mpr ⟨first, rest, hc, hrest rfl, rfl⟩

/-! ### Eight bits, variable length -/

theorem within_iff {low high : Nat} {b : UInt8} :
    within low high b = true ↔ low ≤ b.toNat ∧ b.toNat ≤ high := by
  simp [within]

/-- The second byte is a continuation byte, and four start bytes leave part of these out. -/
theorem bounds_of_secondByte {a b : UInt8} (h : secondByte a b = true) :
    0x80 ≤ b.toNat ∧ b.toNat ≤ 0xBF ∧ (a.toNat = 0xE0 → 0xA0 ≤ b.toNat) ∧
      (a.toNat = 0xED → b.toNat ≤ 0x9F) ∧ (a.toNat = 0xF0 → 0x90 ≤ b.toNat) ∧
      (a.toNat = 0xF4 → b.toNat ≤ 0x8F) := by
  simp only [secondByte, ← UInt8.toNat_inj, UInt8.reduceToNat] at h
  -- one goal for each start byte that is told apart, and one for all others
  repeat' split at h
  all_goals
    have hrange := within_iff.mp h
    omega

theorem encodePoint_utf8 {n : Nat} (h : n < 0x110000) (hn : n < 0xD800 ∨ 0xDFFF < n) :
    utf8.encodePoint (CodePoint.ofNat n) = .ok (utf8Bytes (CodePoint.ofNat n)) := by
  simp [encodePoint, CodePoint.isSurrogate_ofNat h hn]

section Utf8

variable {a b c d : UInt8}

theorem encodePoint_one (ha : a.toNat < 0x80) :
    utf8.encodePoint (CodePoint.ofNat a.toNat) = .ok [a] := by
  have hval := CodePoint.val_ofNat (show a.toNat < 0x110000 by omega)
  rw [encodePoint_utf8 (by omega) (by omega)]
  simp only [utf8Bytes, hval, if_pos ha, UInt8.ofNat_toNat]

theorem encodePoint_two (ha : 0xC2 ≤ a.toNat) (ha' : a.toNat < 0xE0)
    (hb : secondByte a b = true) :
    utf8.encodePoint (CodePoint.ofNat (a.toNat % 32 * 64 + carried b)) = .ok [a, b] := by
  have hsecond := bounds_of_secondByte hb
  rw [carried]
  obtain ⟨n, hn⟩ : ∃ n, n = a.toNat % 32 * 64 + b.toNat % 64 := ⟨_, rfl⟩
  have hval := CodePoint.val_ofNat (show n < 0x110000 by omega)
  rw [← hn, encodePoint_utf8 (by omega) (by omega)]
  simp only [utf8Bytes, hval, if_neg (show ¬n < 0x80 by omega), if_pos (show n < 0x800 by omega),
    ofNat_eq_of_toNat (show 0xC0 + n / 64 = a.toNat by omega),
    ofNat_eq_of_toNat (show 0x80 + n % 64 = b.toNat by omega)]

theorem encodePoint_three (ha : 0xE0 ≤ a.toNat) (ha' : a.toNat < 0xF0)
    (hb : secondByte a b = true) (hc : within 0x80 0xBF c = true) :
    utf8.encodePoint (CodePoint.ofNat (a.toNat % 16 * 4096 + carried b * 64 + carried c)) =
      .ok [a, b, c] := by
  have hsecond := bounds_of_secondByte hb
  have hthird := within_iff.mp hc
  rw [carried, carried]
  obtain ⟨n, hn⟩ : ∃ n, n = a.toNat % 16 * 4096 + b.toNat % 64 * 64 + c.toNat % 64 := ⟨_, rfl⟩
  have hval := CodePoint.val_ofNat (show n < 0x110000 by omega)
  rw [← hn, encodePoint_utf8 (by omega) (by omega)]
  simp only [utf8Bytes, hval, if_neg (show ¬n < 0x80 by omega),
    if_neg (show ¬n < 0x800 by omega), if_pos (show n < 0x10000 by omega),
    ofNat_eq_of_toNat (show 0xE0 + n / 4096 = a.toNat by omega),
    ofNat_eq_of_toNat (show 0x80 + n / 64 % 64 = b.toNat by omega),
    ofNat_eq_of_toNat (show 0x80 + n % 64 = c.toNat by omega)]

theorem encodePoint_four (ha : 0xF0 ≤ a.toNat) (ha' : a.toNat ≤ 0xF4)
    (hb : secondByte a b = true) (hc : within 0x80 0xBF c = true)
    (hd : within 0x80 0xBF d = true) :
    utf8.encodePoint (CodePoint.ofNat
      (a.toNat % 8 * 262144 + carried b * 4096 + carried c * 64 + carried d)) =
        .ok [a, b, c, d] := by
  have hsecond := bounds_of_secondByte hb
  have hthird := within_iff.mp hc
  have hfourth := within_iff.mp hd
  rw [carried, carried, carried]
  obtain ⟨n, hn⟩ : ∃ n, n = a.toNat % 8 * 262144 + b.toNat % 64 * 4096 + c.toNat % 64 * 64 +
    d.toNat % 64 := ⟨_, rfl⟩
  have hval := CodePoint.val_ofNat (show n < 0x110000 by omega)
  rw [← hn, encodePoint_utf8 (by omega) (by omega)]
  simp only [utf8Bytes, hval, if_neg (show ¬n < 0x80 by omega),
    if_neg (show ¬n < 0x800 by omega), if_neg (show ¬n < 0x10000 by omega),
    ofNat_eq_of_toNat (show 0xF0 + n / 262144 = a.toNat by omega),
    ofNat_eq_of_toNat (show 0x80 + n / 4096 % 64 = b.toNat by omega),
    ofNat_eq_of_toNat (show 0x80 + n / 64 % 64 = c.toNat by omega),
    ofNat_eq_of_toNat (show 0x80 + n % 64 = d.toNat by omega)]

end Utf8

theorem encodePoints_of_decodeUtf8 {bytes : Bytes} {t : Text} (h : decodeUtf8 bytes = .ok t) :
    utf8.encodePoints t = .ok bytes := by
  -- The cases that are left out here are those in which decoding fails.
  fun_induction decodeUtf8 bytes generalizing t with
  | case1 =>
    cases h
    rfl
  | case2 a rest ha ih => exact encodePoints_of_map_cons (encodePoint_one ha) ih h
  | case6 a _ ha b rest hb ha' ih =>
    exact encodePoints_of_map_cons (encodePoint_two (by omega) ha' (by simpa using hb)) ih h
  | case9 a _ ha b hb ha' c rest hc ha'' ih =>
    exact encodePoints_of_map_cons
      (encodePoint_three (by omega) ha'' (by simpa using hb) (by simpa using hc)) ih h
  | case12 a _ ha b hb _ c hc ha' d rest hd ih =>
    exact encodePoints_of_map_cons (encodePoint_four (by omega) (by omega) (by simpa using hb)
      (by simpa using hc) (by simpa using hd)) ih h
  | _ => cases h

/-! ### One byte for each code point -/

theorem encodePoints_of_decodeSingle {e : Encoding} {bound : Nat}
    (he : ∀ c, e.encodePoint c =
      if c.val < bound then .ok [UInt8.ofNat c.val] else .error (.ordinal bound))
    {bytes : Bytes} {t : Text} (h : decodeSingle bound bytes = .ok t) :
    e.encodePoints t = .ok bytes := by
  induction bytes generalizing t with
  | nil =>
    cases h
    rfl
  | cons b rest ih =>
    rw [decodeSingle] at h
    split at h
    case isTrue hb =>
      have hbyte := b.toNat_lt
      have hval := CodePoint.val_ofNat (show b.toNat < 0x110000 by omega)
      have hpoint : e.encodePoint (CodePoint.ofNat b.toNat) = .ok [b] := by
        rw [he, hval, if_pos hb, UInt8.ofNat_toNat]
      exact encodePoints_of_map_cons hpoint ih h
    case isFalse => cases h

/-! ### Sixteen and thirty-two bits -/

section Utf16

variable {order : ByteOrder} {a b c d : UInt8}

theorem load_two_lt : order.load [a, b] < 0x10000 := order.load_lt (show [a, b].length = 2 from rfl)

theorem store_load_two : order.store 2 (order.load [a, b]) = [a, b] := order.store_load rfl

/-- A unit that is no half of a pair codes a code point by itself. -/
theorem encodePoint_unit (hlow : ¬(CodePoint.ofNat (order.load [a, b])).isLowSurrogate = true)
    (hhigh : ¬(CodePoint.ofNat (order.load [a, b])).isHighSurrogate = true) :
    (utf16 order).encodePoint (CodePoint.ofNat (order.load [a, b])) = .ok [a, b] := by
  have hlt : order.load [a, b] < 0x10000 := load_two_lt
  have hval := CodePoint.val_ofNat (show order.load [a, b] < 0x110000 by omega)
  simp only [CodePoint.isLowSurrogate, CodePoint.isHighSurrogate, hval, Bool.and_eq_true,
    decide_eq_true_eq] at hlow hhigh
  refine encodePoint_utf16_eq_ok_iff.mpr
    ⟨CodePoint.isSurrogate_ofNat (by omega) (by omega), ?_⟩
  rw [utf16Units, hval, if_pos hlt, List.flatMap_singleton, store_load_two]

/-- The two halves of a pair code the code point that is made of them. -/
theorem encodePoint_pair (hhigh : (CodePoint.ofNat (order.load [a, b])).isHighSurrogate = true)
    (hlow : (CodePoint.ofNat (order.load [c, d])).isLowSurrogate = true) :
    (utf16 order).encodePoint (CodePoint.ofNat
      (0x10000 + ((CodePoint.ofNat (order.load [a, b])).val - 0xD800) * 0x400 +
        ((CodePoint.ofNat (order.load [c, d])).val - 0xDC00))) = .ok [a, b, c, d] := by
  have hlt : order.load [a, b] < 0x10000 := load_two_lt
  have hlt' : order.load [c, d] < 0x10000 := load_two_lt
  have hval := CodePoint.val_ofNat (show order.load [a, b] < 0x110000 by omega)
  have hval' := CodePoint.val_ofNat (show order.load [c, d] < 0x110000 by omega)
  simp only [CodePoint.isLowSurrogate, CodePoint.isHighSurrogate, hval, hval', Bool.and_eq_true,
    decide_eq_true_eq] at hlow hhigh
  rw [hval, hval']
  obtain ⟨n, hn⟩ : ∃ n, n = 0x10000 + (order.load [a, b] - 0xD800) * 0x400 +
    (order.load [c, d] - 0xDC00) := ⟨_, rfl⟩
  have hpoint := CodePoint.val_ofNat (show n < 0x110000 by omega)
  have hfirst : 0xD800 + (n - 0x10000) / 0x400 = order.load [a, b] := by omega
  have hsecond : 0xDC00 + (n - 0x10000) % 0x400 = order.load [c, d] := by omega
  rw [← hn]
  refine encodePoint_utf16_eq_ok_iff.mpr
    ⟨CodePoint.isSurrogate_ofNat (by omega) (by omega), ?_⟩
  rw [utf16Units, hpoint, if_neg (by omega), hfirst, hsecond, List.flatMap_cons,
    List.flatMap_singleton, store_load_two, store_load_two]
  rfl

end Utf16

theorem encodePoints_of_decodeUtf16 {order : ByteOrder} {bytes : Bytes} {t : Text}
    (h : decodeUtf16 order bytes = .ok t) : (utf16 order).encodePoints t = .ok bytes := by
  fun_induction decodeUtf16 order bytes generalizing t with
  | case1 =>
    cases h
    rfl
  | case4 a b unit _ hhigh c d rest second hlow =>
    rename_i ih
    exact encodePoints_of_map_cons (encodePoint_pair hhigh hlow) ih h
  | case7 a b rest unit hlow hhigh =>
    rename_i ih
    exact encodePoints_of_map_cons (encodePoint_unit hlow hhigh) ih h
  | _ => cases h

theorem encodePoints_of_decodeUtf32 {order : ByteOrder} {bytes : Bytes} {t : Text}
    (h : decodeUtf32 order bytes = .ok t) : (utf32 order).encodePoints t = .ok bytes := by
  fun_induction decodeUtf32 order bytes generalizing t with
  | case1 =>
    cases h
    rfl
  | case4 a b c d rest unit hunit hsurrogate ih =>
    have hval : unit.val = order.load [a, b, c, d] := by
      rw [CodePoint.ofNat?] at hunit
      split at hunit
      case isTrue =>
        cases hunit
        rfl
      case isFalse => cases hunit
    have hpoint : (utf32 order).encodePoint unit = .ok [a, b, c, d] := by
      simp only [encodePoint, encodePoint.full, if_neg hsurrogate, hval]
      rw [order.store_load (show [a, b, c, d].length = 4 from rfl)]
    exact encodePoints_of_map_cons hpoint ih h
  | _ => cases h

/-! ### Every encoding without a mark -/

/-- **Encoding undoes decoding**, for the encodings without a byte order mark. -/
theorem encode_of_decode {e : Encoding} (he : e.mark = []) {bytes : Bytes} {t : Text}
    (h : e.decode bytes = .ok t) : e.encode t = .ok bytes := by
  rw [encode_unmarked he]
  cases e with
  | utf8 => exact encodePoints_of_decodeUtf8 h
  | ascii => exact encodePoints_of_decodeSingle (fun _ => rfl) h
  | latin1 => exact encodePoints_of_decodeSingle (fun _ => rfl) h
  | utf16 order => exact encodePoints_of_decodeUtf16 h
  | utf32 order => exact encodePoints_of_decodeUtf32 h
  | markedUtf8 | markedUtf16 | markedUtf32 => cases he

end Encoding

end TypedMemory
