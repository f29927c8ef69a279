import TypedMemory.Codec.Access
import TypedMemory.Proofs.ByteOrder

/-!
# Texts come back from their coded form

What an encoding of texts writes it also reads, code point by code point
(`TypedMemory.Encoding.decode_encodePoint_append`): the coded form of a code point says by
itself where it ends. A byte order mark stands in front of the whole and not of any code
point, so the encoding that has one is that of little order behind its mark.

A slot is filled up with zeros and read up to the first of them. This gives the part of the
text before its own first NUL (`TypedMemory.beforeNul`), for two reasons that are the same
in narrow and in wide encodings: NUL is coded as one unit that is zero, and no other code
point has a unit of zero in its coded form.
-/

namespace TypedMemory

/-- The part of a text before its first NUL. -/
def beforeNul (t : Text) : Text := t.takeWhile fun c => c.val ≠ 0

theorem beforeNul_cons_of_eq {c : CodePoint} (h : c.val = 0) (t : Text) :
    beforeNul (c :: t) = [] := by
  simp [beforeNul, h]

theorem beforeNul_cons_of_ne {c : CodePoint} (h : c.val ≠ 0) (t : Text) :
    beforeNul (c :: t) = c :: beforeNul t := by
  simp [beforeNul, h]

@[simp] theorem CodePoint.ofNat_val (c : CodePoint) : CodePoint.ofNat c.val = c := by
  rw [CodePoint.ofNat, dif_pos c.isLt]

theorem CodePoint.val_ofNat {n : Nat} (h : n < 0x110000) : (CodePoint.ofNat n).val = n := by
  rw [CodePoint.ofNat, dif_pos h]

theorem CodePoint.ofNat_eq (c : CodePoint) {n : Nat} (h : n = c.val) : CodePoint.ofNat n = c := by
  rw [h, ofNat_val]

theorem toNat_ofNat {n : Nat} (h : n < 256) : (UInt8.ofNat n).toNat = n :=
  UInt8.toNat_ofNat_of_lt h

namespace Encoding

/-! ### Eight bits, variable length -/

theorem secondByte_of {a b : UInt8} (hlow : 0x80 ≤ b.toNat) (hhigh : b.toNat ≤ 0xBF)
    (h₁ : a.toNat = 0xE0 → 0xA0 ≤ b.toNat) (h₂ : a.toNat = 0xED → b.toNat ≤ 0x9F)
    (h₃ : a.toNat = 0xF0 → 0x90 ≤ b.toNat) (h₄ : a.toNat = 0xF4 → b.toNat ≤ 0x8F) :
    secondByte a b = true := by
  have hwithin : ∀ low high, low ≤ b.toNat → b.toNat ≤ high → within low high b = true := by
    intro low high hl hh
    simp [within, hl, hh]
  rw [secondByte]
  split
  case isTrue ha =>
    subst ha
    exact hwithin _ _ (h₁ rfl) hhigh
  case isFalse =>
    split
    case isTrue ha =>
      subst ha
      exact hwithin _ _ hlow (h₂ rfl)
    case isFalse =>
      split
      case isTrue ha =>
        subst ha
        exact hwithin _ _ (h₃ rfl) hhigh
      case isFalse =>
        split
        case isTrue ha =>
          subst ha
          exact hwithin _ _ hlow (h₄ rfl)
        case isFalse => exact hwithin _ _ hlow hhigh

section Utf8

variable {a b c d : UInt8}

theorem decodeUtf8_one (ha : a.toNat < 0x80) (rest : Bytes) :
    decodeUtf8 (a :: rest) = (decodeUtf8 rest).map (CodePoint.ofNat a.toNat :: ·) := by
  rw [decodeUtf8.eq_def]
  simp only [if_pos ha]

theorem decodeUtf8_two (ha : 0xC2 ≤ a.toNat) (ha' : a.toNat < 0xE0)
    (hb : secondByte a b = true) (rest : Bytes) : decodeUtf8 (a :: b :: rest) =
      (decodeUtf8 rest).map (CodePoint.ofNat (a.toNat % 32 * 64 + carried b) :: ·) := by
  rw [decodeUtf8.eq_def]
  simp only [if_neg (show ¬a.toNat < 0x80 by omega),
    if_neg (show ¬(a.toNat < 0xC2 ∨ 0xF4 < a.toNat) by omega), hb, Bool.not_true,
    Bool.false_eq_true, if_false, if_pos ha']

theorem decodeUtf8_three (ha : 0xE0 ≤ a.toNat) (ha' : a.toNat < 0xF0)
    (hb : secondByte a b = true) (hc : within 0x80 0xBF c = true) (rest : Bytes) :
    decodeUtf8 (a :: b :: c :: rest) = (decodeUtf8 rest).map
      (CodePoint.ofNat (a.toNat % 16 * 4096 + carried b * 64 + carried c) :: ·) := by
  rw [decodeUtf8.eq_def]
  simp only [if_neg (show ¬a.toNat < 0x80 by omega),
    if_neg (show ¬(a.toNat < 0xC2 ∨ 0xF4 < a.toNat) by omega), hb, hc, Bool.not_true,
    Bool.false_eq_true, if_false, if_neg (show ¬a.toNat < 0xE0 by omega), if_pos ha']

theorem decodeUtf8_four (ha : 0xF0 ≤ a.toNat) (ha' : a.toNat ≤ 0xF4)
    (hb : secondByte a b = true) (hc : within 0x80 0xBF c = true)
    (hd : within 0x80 0xBF d = true) (rest : Bytes) :
    decodeUtf8 (a :: b :: c :: d :: rest) = (decodeUtf8 rest).map (CodePoint.ofNat
      (a.toNat % 8 * 262144 + carried b * 4096 + carried c * 64 + carried d) :: ·) := by
  rw [decodeUtf8.eq_def]
  simp only [if_neg (show ¬a.toNat < 0x80 by omega),
    if_neg (show ¬(a.toNat < 0xC2 ∨ 0xF4 < a.toNat) by omega), hb, hc, hd, Bool.not_true,
    Bool.false_eq_true, if_false, if_neg (show ¬a.toNat < 0xE0 by omega),
    if_neg (show ¬a.toNat < 0xF0 by omega)]

end Utf8

/-- A continuation byte carries the six bits it was made of. -/
theorem carried_ofNat {n : Nat} (h : n < 64) : carried (UInt8.ofNat (0x80 + n)) = n := by
  rw [carried, toNat_ofNat (by omega)]
  omega

theorem within_ofNat {n : Nat} (h : n < 64) : within 0x80 0xBF (UInt8.ofNat (0x80 + n)) = true := by
  rw [within, toNat_ofNat (by omega)]
  simp
  omega

theorem decodeUtf8_utf8Bytes_append {c : CodePoint} (h : c.isSurrogate = false) (rest : Bytes) :
    decodeUtf8 (utf8Bytes c ++ rest) = (decodeUtf8 rest).map (c :: ·) := by
  have hlt := c.isLt
  have hsurrogate : c.val < 0xD800 ∨ 0xDFFF < c.val := by
    simp only [CodePoint.isSurrogate, Bool.and_eq_false_iff, decide_eq_false_iff_not] at h
    omega
  by_cases h₁ : c.val < 0x80
  · simp only [utf8Bytes, if_pos h₁, List.cons_append, List.nil_append]
    have ha := toNat_ofNat (show c.val < 256 by omega)
    rw [decodeUtf8_one (by omega), CodePoint.ofNat_eq c ha]
  by_cases h₂ : c.val < 0x800
  · simp only [utf8Bytes, if_neg h₁, if_pos h₂, List.cons_append, List.nil_append]
    have ha := toNat_ofNat (show 0xC0 + c.val / 64 < 256 by omega)
    have hb := toNat_ofNat (show 0x80 + c.val % 64 < 256 by omega)
    rw [decodeUtf8_two (by omega) (by omega) (secondByte_of (by omega) (by omega) (by omega)
        (by omega) (by omega) (by omega)), ha, carried_ofNat (by omega),
      CodePoint.ofNat_eq c (by omega)]
  by_cases h₃ : c.val < 0x10000
  · simp only [utf8Bytes, if_neg h₁, if_neg h₂, if_pos h₃, List.cons_append, List.nil_append]
    have ha := toNat_ofNat (show 0xE0 + c.val / 4096 < 256 by omega)
    have hb := toNat_ofNat (show 0x80 + c.val / 64 % 64 < 256 by omega)
    -- The start bytes 0xE0 and 0xED leave out what is short enough and the surrogates.
    rw [decodeUtf8_three (by omega) (by omega) (secondByte_of (by omega) (by omega) (by omega)
        (by omega) (by omega) (by omega)) (within_ofNat (by omega)), ha,
      carried_ofNat (by omega), carried_ofNat (by omega), CodePoint.ofNat_eq c (by omega)]
  · simp only [utf8Bytes, if_neg h₁, if_neg h₂, if_neg h₃, List.cons_append, List.nil_append]
    have ha := toNat_ofNat (show 0xF0 + c.val / 262144 < 256 by omega)
    have hb := toNat_ofNat (show 0x80 + c.val / 4096 % 64 < 256 by omega)
    rw [decodeUtf8_four (by omega) (by omega) (secondByte_of (by omega) (by omega) (by omega)
        (by omega) (by omega) (by omega)) (within_ofNat (by omega)) (within_ofNat (by omega)),
      ha, carried_ofNat (by omega), carried_ofNat (by omega), carried_ofNat (by omega),
      CodePoint.ofNat_eq c (by omega)]

/-! ### Sixteen bits -/

/-- Two bytes are what a unit of sixteen bits is stored in. -/
theorem exists_store_two (order : ByteOrder) {u : Nat} (h : u < 0x10000) :
    ∃ a b, order.store 2 u = [a, b] ∧ order.load [a, b] = u := by
  have hload : order.load (order.store 2 u) = u := ByteOrder.load_store_of_lt order h
  match hstore : order.store 2 u, ByteOrder.length_store order 2 u with
  | [a, b], _ =>
    rw [hstore] at hload
    exact ⟨a, b, rfl, hload⟩

theorem decodeUtf16_units_append (order : ByteOrder) {c : CodePoint} (h : c.isSurrogate = false)
    (rest : Bytes) : decodeUtf16 order ((utf16Units c).flatMap (order.store 2) ++ rest) =
      (decodeUtf16 order rest).map (c :: ·) := by
  have hlt := c.isLt
  have hsurrogate : c.val < 0xD800 ∨ 0xDFFF < c.val := by
    simp only [CodePoint.isSurrogate, Bool.and_eq_false_iff, decide_eq_false_iff_not] at h
    omega
  by_cases hc : c.val < 0x10000
  · obtain ⟨a, b, hstore, hload⟩ := exists_store_two order hc
    simp only [utf16Units, if_pos hc, List.flatMap_cons, List.flatMap_nil, hstore,
      List.append_nil, List.cons_append, List.nil_append]
    rw [decodeUtf16.eq_def]
    simp only [hload, CodePoint.ofNat_val]
    have hlow : c.isLowSurrogate = false := by
      simp only [CodePoint.isLowSurrogate, Bool.and_eq_false_iff, decide_eq_false_iff_not]
      omega
    have hhigh : c.isHighSurrogate = false := by
      simp only [CodePoint.isHighSurrogate, Bool.and_eq_false_iff, decide_eq_false_iff_not]
      omega
    simp only [hlow, hhigh, Bool.false_eq_true, if_false]
  · -- The two halves of a pair carry ten bits each of what is left above sixteen.
    obtain ⟨high, hhigh⟩ : ∃ n, n = 0xD800 + (c.val - 0x10000) / 0x400 := ⟨_, rfl⟩
    obtain ⟨low, hlow⟩ : ∃ n, n = 0xDC00 + (c.val - 0x10000) % 0x400 := ⟨_, rfl⟩
    obtain ⟨a, b, hstore, hload⟩ := exists_store_two order (show high < 0x10000 by omega)
    obtain ⟨a', b', hstore', hload'⟩ := exists_store_two order (show low < 0x10000 by omega)
    simp only [utf16Units, if_neg hc, List.flatMap_cons, List.flatMap_nil, ← hhigh, ← hlow,
      hstore, hstore', List.append_nil, List.cons_append, List.nil_append]
    have hval := CodePoint.val_ofNat (show high < 0x110000 by omega)
    have hval' := CodePoint.val_ofNat (show low < 0x110000 by omega)
    rw [decodeUtf16.eq_def]
    simp only [hload, hload', CodePoint.isLowSurrogate, CodePoint.isHighSurrogate, hval, hval']
    rw [if_neg (by simp; omega), if_pos (by simp; omega), if_pos (by simp; omega),
      CodePoint.ofNat_eq c (by omega)]

/-! ### The round trip -/

/-- The encodings that write a text as a row of bytes or of 16-bit units, with nothing in
front. -/
inductive IsPlain : Encoding → Prop
  | utf8 : IsPlain .utf8
  | ascii : IsPlain .ascii
  | latin1 : IsPlain .latin1
  | utf16 (order : ByteOrder) : IsPlain (.utf16 order)

variable {e : Encoding}

theorem IsPlain.mark_eq_nil (he : e.IsPlain) : e.mark = [] := by
  cases he <;> rfl

/-- Without a mark the encoding of a text is that of its code points. -/
theorem encode_unmarked (he : e.mark = []) (t : Text) : e.encode t = e.encodePoints t := by
  rw [encode, he]
  cases e.encodePoints t <;> rfl

theorem decodeSingle_cons {bound : Nat} {c : CodePoint} (hn : c.val < bound) (hc : c.val < 256)
    (rest : Bytes) : decodeSingle bound (UInt8.ofNat c.val :: rest) =
      (decodeSingle bound rest).map (c :: ·) := by
  rw [decodeSingle, toNat_ofNat hc, if_pos hn, CodePoint.ofNat_val]

/-- **Decoding takes off what one code point was coded as.** -/
theorem decode_encodePoint_append (he : e.IsPlain) {c : CodePoint} {bytes : Bytes}
    (h : e.encodePoint c = .ok bytes) (rest : Bytes) :
    e.decode (bytes ++ rest) = (e.decode rest).map (c :: ·) := by
  cases he with
  | utf8 =>
    simp only [encodePoint] at h
    split at h
    case isTrue => cases h
    case isFalse hc =>
      cases h
      exact decodeUtf8_utf8Bytes_append (by simpa using hc) rest
  | ascii =>
    simp only [encodePoint] at h
    split at h
    case isTrue hc =>
      cases h
      exact decodeSingle_cons hc (by omega) rest
    case isFalse => cases h
  | latin1 =>
    simp only [encodePoint] at h
    split at h
    case isTrue hc =>
      cases h
      exact decodeSingle_cons hc hc rest
    case isFalse => cases h
  | utf16 order =>
    simp only [encodePoint, encodePoint.wide] at h
    split at h
    case isTrue => cases h
    case isFalse hc =>
      cases h
      exact decodeUtf16_units_append order (by simpa using hc) rest

/-- A coded text is the coded form of its first code point and that of the rest. -/
theorem encodePoints_cons_eq_ok_iff {c : CodePoint} {t : Text} {bytes : Bytes} :
    e.encodePoints (c :: t) = .ok bytes ↔ ∃ first more, e.encodePoint c = .ok first ∧
      e.encodePoints t = .ok more ∧ first ++ more = bytes := by
  rw [encodePoints]
  cases e.encodePoint c with
  | error fault => simp [bind, Except.bind]
  | ok first => cases e.encodePoints t <;> simp [bind, Except.bind, pure, Except.pure]

/-- **Decoding undoes encoding**, code point by code point. -/
theorem decode_encodePoints (he : e.IsPlain) {t : Text} {bytes : Bytes}
    (h : e.encodePoints t = .ok bytes) : e.decode bytes = .ok t := by
  induction t generalizing bytes with
  | nil =>
    cases h
    cases he <;> rfl
  | cons c t ih =>
    obtain ⟨first, more, hfirst, hmore, rfl⟩ := encodePoints_cons_eq_ok_iff.mp h
    rw [decode_encodePoint_append he hfirst, ih hmore]
    rfl

/-- Any text without surrogates is coded in UTF-8. -/
theorem exists_encodePoints_utf8 {t : Text} (ht : ∀ c ∈ t, c.isSurrogate = false) :
    ∃ bytes, utf8.encodePoints t = .ok bytes := by
  induction t with
  | nil => exact ⟨[], rfl⟩
  | cons c t ih =>
    obtain ⟨hc, ht⟩ := List.forall_mem_cons.mp ht
    obtain ⟨bytes, hbytes⟩ := ih ht
    have hpoint : utf8.encodePoint c = .ok (utf8Bytes c) := by
      simp [encodePoint, hc]
    exact ⟨_, encodePoints_cons_eq_ok_iff.mpr ⟨_, _, hpoint, hbytes, rfl⟩⟩

/-! ### Cutting at zeros -/

/-- **Cutting fits an encoding** with units of so many bytes: it cuts at the first unit that is
zero, and only NUL is coded with a unit that is zero. -/
structure Cuts (cut : Bytes → Bytes) (unit : Nat) (e : Encoding) : Prop where
  zeros : ∀ k, cut (List.replicate (unit * k) 0) = []
  nul : ∀ {c : CodePoint} {bytes : Bytes}, c.val = 0 → e.encodePoint c = .ok bytes →
    ∀ rest, cut (bytes ++ rest) = []
  point : ∀ {c : CodePoint} {bytes : Bytes}, c.val ≠ 0 → e.encodePoint c = .ok bytes →
    ∀ rest, cut (bytes ++ rest) = bytes ++ cut rest

/-- Cutting a coded text that is filled up with zeros leaves the coded form of its part before
the first NUL. -/
theorem Cuts.encodePoints {cut : Bytes → Bytes} {unit : Nat} (hcut : Cuts cut unit e) {t : Text}
    {bytes : Bytes} (h : e.encodePoints t = .ok bytes) (k : Nat) :
    e.encodePoints (beforeNul t) = .ok (cut (bytes ++ List.replicate (unit * k) 0)) := by
  induction t generalizing bytes with
  | nil =>
    cases h
    rw [List.nil_append, hcut.zeros]
    rfl
  | cons c t ih =>
    obtain ⟨first, more, hfirst, hmore, rfl⟩ := encodePoints_cons_eq_ok_iff.mp h
    rw [List.append_assoc]
    by_cases hc : c.val = 0
    · rw [beforeNul_cons_of_eq hc, hcut.nul hc hfirst]
      rfl
    · rw [beforeNul_cons_of_ne hc, hcut.point hc hfirst]
      exact encodePoints_cons_eq_ok_iff.mpr ⟨first, _, hfirst, ih hmore, rfl⟩

theorem cutNarrow_append {bytes : Bytes} (h : ∀ b ∈ bytes, b ≠ 0) (rest : Bytes) :
    cutNarrow (bytes ++ rest) = bytes ++ cutNarrow rest :=
  List.takeWhile_append_of_pos fun b hb => by simpa using h b hb

theorem ofNat_ne_zero {n : Nat} (h : 0 < n) (h' : n < 256) : UInt8.ofNat n ≠ 0 := by
  intro hzero
  have hn := toNat_ofNat h'
  rw [hzero] at hn
  have : (0 : UInt8).toNat = 0 := rfl
  omega

theorem utf8Bytes_ne_zero {c : CodePoint} (hc : c.val ≠ 0) : ∀ b ∈ utf8Bytes c, b ≠ 0 := by
  have hlt := c.isLt
  intro b hb
  rw [utf8Bytes] at hb
  split at hb
  · rcases List.mem_singleton.mp hb with rfl
    exact ofNat_ne_zero (by omega) (by omega)
  · split at hb
    · simp only [List.mem_cons, List.not_mem_nil, or_false] at hb
      rcases hb with rfl | rfl <;> exact ofNat_ne_zero (by omega) (by omega)
    · split at hb
      · simp only [List.mem_cons, List.not_mem_nil, or_false] at hb
        rcases hb with rfl | rfl | rfl <;> exact ofNat_ne_zero (by omega) (by omega)
      · simp only [List.mem_cons, List.not_mem_nil, or_false] at hb
        rcases hb with rfl | rfl | rfl | rfl <;> exact ofNat_ne_zero (by omega) (by omega)

/-- An encoding by bytes is cut at bytes that are zero, if only NUL is coded with one. -/
theorem cuts_of_bytes (hnul : ∀ {c : CodePoint} {bytes : Bytes}, c.val = 0 →
      e.encodePoint c = .ok bytes → bytes = [0])
    (hpoint : ∀ {c : CodePoint} {bytes : Bytes}, c.val ≠ 0 →
      e.encodePoint c = .ok bytes → ∀ b ∈ bytes, b ≠ 0) : Cuts cutNarrow 1 e where
  zeros k := by cases k <;> simp [cutNarrow, List.replicate_succ]
  nul hc h rest := by simp [hnul hc h, cutNarrow]
  point hc h rest := cutNarrow_append (hpoint hc h) rest

theorem cuts_utf8 : Cuts cutNarrow 1 .utf8 := by
  refine cuts_of_bytes ?_ ?_
  · intro c bytes hc h
    simp only [encodePoint, CodePoint.isSurrogate, utf8Bytes, hc] at h
    cases h
    rfl
  · intro c bytes hc h
    simp only [encodePoint] at h
    split at h
    · cases h
    · cases h
      exact utf8Bytes_ne_zero hc

/-- The coded form in an encoding of one byte for each code point below a bound. -/
theorem cuts_single {bound : Nat} (hbound : bound ≤ 256) (hpos : 0 < bound)
    (h : ∀ c, e.encodePoint c =
      if c.val < bound then .ok [UInt8.ofNat c.val] else .error (.ordinal bound)) :
    Cuts cutNarrow 1 e := by
  refine cuts_of_bytes ?_ ?_
  · intro c bytes hc hb
    rw [h, if_pos (by omega), hc] at hb
    cases hb
    rfl
  · intro c bytes hc hb
    rw [h] at hb
    split at hb
    · cases hb
      intro b hb
      rcases List.mem_singleton.mp hb with rfl
      exact ofNat_ne_zero (by omega) (by omega)
    · cases hb

theorem cuts_ascii : Cuts cutNarrow 1 .ascii :=
  cuts_single (by decide) (by decide) fun _ => rfl

theorem cuts_latin1 : Cuts cutNarrow 1 .latin1 :=
  cuts_single (by decide) (by decide) fun _ => rfl

/-- A unit of sixteen bits stops the cutting exactly if it is zero. -/
theorem cutWide_store (order : ByteOrder) {u : Nat} (h : u < 0x10000) (rest : Bytes) :
    cutWide (order.store 2 u ++ rest) =
      if u = 0 then [] else order.store 2 u ++ cutWide rest := by
  obtain ⟨a, b, hstore, hload⟩ := exists_store_two order h
  have hzero : a = 0 ∧ b = 0 ↔ u = 0 := by
    rw [← hload]
    cases order with
    | little =>
      simp only [ByteOrder.load, ByteOrder.ofDigits, ← UInt8.toNat_inj, UInt8.toNat_zero]
      omega
    | big =>
      simp only [ByteOrder.load, ByteOrder.ofDigits, ← UInt8.toNat_inj, UInt8.toNat_zero,
        List.reverse_cons, List.reverse_nil, List.nil_append, List.cons_append]
      omega
  rw [hstore]
  simp only [List.cons_append, List.nil_append, cutWide, hzero]

theorem utf16Units_lt (c : CodePoint) : ∀ u ∈ utf16Units c, u < 0x10000 := by
  have hlt := c.isLt
  intro u hu
  rw [utf16Units] at hu
  split at hu
  · rcases List.mem_singleton.mp hu with rfl
    assumption
  · simp only [List.mem_cons, List.not_mem_nil, or_false] at hu
    rcases hu with hu | hu <;> omega

theorem utf16Units_ne_zero {c : CodePoint} (hc : c.val ≠ 0) : ∀ u ∈ utf16Units c, u ≠ 0 := by
  intro u hu
  rw [utf16Units] at hu
  split at hu
  · rcases List.mem_singleton.mp hu with rfl
    exact hc
  · simp only [List.mem_cons, List.not_mem_nil, or_false] at hu
    rcases hu with hu | hu <;> omega

theorem cutWide_units (order : ByteOrder) {units : List Nat} (hlt : ∀ u ∈ units, u < 0x10000)
    (hne : ∀ u ∈ units, u ≠ 0) (rest : Bytes) :
    cutWide (units.flatMap (order.store 2) ++ rest) =
      units.flatMap (order.store 2) ++ cutWide rest := by
  induction units with
  | nil => rfl
  | cons u units ih =>
    rw [List.forall_mem_cons] at hlt hne
    rw [List.flatMap_cons, List.append_assoc, cutWide_store order hlt.1, if_neg hne.1,
      ih hlt.2 hne.2, List.append_assoc]

theorem encodePoint_utf16_eq_ok_iff {order : ByteOrder} {c : CodePoint} {bytes : Bytes} :
    (utf16 order).encodePoint c = .ok bytes ↔
      c.isSurrogate = false ∧ (utf16Units c).flatMap (order.store 2) = bytes := by
  simp only [encodePoint, encodePoint.wide]
  cases c.isSurrogate <;> simp

theorem cuts_utf16 (order : ByteOrder) : Cuts cutWide 2 (.utf16 order) where
  zeros k := by
    cases k with
    | zero => rfl
    | succ k => simp [Nat.mul_succ, List.replicate_succ, cutWide]
  nul := by
    intro c bytes hc h rest
    obtain ⟨-, rfl⟩ := encodePoint_utf16_eq_ok_iff.mp h
    have hunits : utf16Units c = [0] := by simp [utf16Units, hc]
    rw [hunits, List.flatMap_cons, List.append_assoc, cutWide_store order (by decide), if_pos rfl]
  point := by
    intro c bytes hc h rest
    obtain ⟨-, rfl⟩ := encodePoint_utf16_eq_ok_iff.mp h
    exact cutWide_units order (utf16Units_lt c) (utf16Units_ne_zero hc) rest

/-- A text in 16-bit units has an even number of bytes. -/
theorem two_dvd_length {order : ByteOrder} {t : Text} {bytes : Bytes}
    (h : (utf16 order).encodePoints t = .ok bytes) : 2 ∣ bytes.length := by
  induction t generalizing bytes with
  | nil =>
    cases h
    exact ⟨0, rfl⟩
  | cons c t ih =>
    obtain ⟨first, more, hfirst, hmore, rfl⟩ := encodePoints_cons_eq_ok_iff.mp h
    obtain ⟨-, rfl⟩ := encodePoint_utf16_eq_ok_iff.mp hfirst
    have hmore := ih hmore
    have hfirst : ((utf16Units c).flatMap (order.store 2)).length = (utf16Units c).length * 2 := by
      simp [List.length_flatMap, List.map_const']
    rw [List.length_append, hfirst]
    omega

/-- The encoding behind a byte order mark writes its mark and then as little order does. -/
theorem encode_marked {t : Text} {bytes : Bytes} (h : markedUtf16.encode t = .ok bytes) :
    ∃ units, (utf16 .little).encodePoints t = .ok units ∧ bytes = 0xFF :: 0xFE :: units := by
  have hpoints : ∀ t, markedUtf16.encodePoints t = (utf16 .little).encodePoints t := by
    intro t
    induction t with
    | nil => rfl
    | cons c t ih =>
      rw [encodePoints, encodePoints, ih]
      rfl
  rw [encode, hpoints] at h
  cases hunits : (utf16 .little).encodePoints t with
  | error fault =>
    rw [hunits] at h
    cases h
  | ok units =>
    rw [hunits] at h
    cases h
    exact ⟨units, rfl, rfl⟩

end Encoding

/-! ### Text slots -/

section TextSlots

open Encoding

variable [Host] {name : Text} {e : Encoding} {t : Text} {coded : Bytes}

/-- What a text is coded as is what the encoding of that name makes of it. -/
theorem encodeText_eq_ok_iff (hn : nameFault? name = none) (hof : ofName? name = some e) :
    encodeText (some name) t = .ok coded ↔ e.encode t = .ok coded := by
  simp only [encodeText, hn, TextCodec.named?_of_ofName? hof]
  cases h : e.encode t with
  | ok bytes => simp [encode_codec_of_ok h]
  | error fault => simp [encode_codec_of_error h, Error.fail]

/-- Bytes that can be decoded are decoded as the encoding of that name does. -/
theorem decodeText_eq_ok (hn : nameFault? name = none) (hof : ofName? name = some e)
    (hempty : e.decode [] = .ok []) (h : e.decode coded = .ok t) (address : Int) :
    decodeText (some name) address coded = .ok t := by
  cases coded with
  | nil =>
    cases hempty.symm.trans h
    simp [decodeText, hn]
  | cons b bytes =>
    simp [decodeText, hn, TextCodec.named?_of_ofName? hof, decode_codec_of_ok h]

/-- **A text slot in a plain encoding** is read up to the first NUL of what was written. -/
theorem decodeText_cut (hn : nameFault? name = none) (hof : ofName? name = some e)
    (he : e.IsPlain) {cut : Bytes → Bytes} {unit : Nat} (hcut : Cuts cut unit e)
    (h : encodeText (some name) t = .ok coded) (address : Int) (k : Nat) :
    decodeText (some name) address (cut (coded ++ List.replicate (unit * k) 0)) =
      .ok (beforeNul t) := by
  have hpoints := (encodeText_eq_ok_iff hn hof).mp h
  rw [encode_unmarked he.mark_eq_nil] at hpoints
  refine decodeText_eq_ok hn hof (decode_encodePoints he rfl) ?_ address
  exact decode_encodePoints he (hcut.encodePoints hpoints k)

/-- The narrow encodings that a text comes back from, by the names that options give them. -/
def narrowNames : List (Text × Encoding) :=
  [("utf-8", utf8), ("ascii", ascii), ("latin-1", latin1)]

/-- The wide encodings that a text comes back from, by the names that options give them. -/
def wideNames : List (Text × Encoding) :=
  [("utf-16-le", utf16 .little), ("utf-16-be", utf16 .big), ("utf-16", markedUtf16)]

omit [Host] in
/-- These are names of these encodings. -/
theorem known_of_mem : ∀ p ∈ narrowNames ++ wideNames,
    nameFault? p.1 = none ∧ ofName? p.1 = some p.2 := by
  decide +kernel

theorem decodeText_cutNarrow (hname : (name, e) ∈ narrowNames)
    (h : encodeText (some name) t = .ok coded) (address : Int) (k : Nat) :
    decodeText (some name) address (cutNarrow (coded ++ List.replicate k 0)) =
      .ok (beforeNul t) := by
  obtain ⟨hn, hof⟩ := known_of_mem _ (List.mem_append_left wideNames hname)
  simp only [narrowNames, List.mem_cons, Prod.mk.injEq, List.not_mem_nil, or_false] at hname
  rw [← Nat.one_mul k]
  rcases hname with ⟨-, rfl⟩ | ⟨-, rfl⟩ | ⟨-, rfl⟩
  · exact decodeText_cut hn hof .utf8 cuts_utf8 h address k
  · exact decodeText_cut hn hof .ascii cuts_ascii h address k
  · exact decodeText_cut hn hof .latin1 cuts_latin1 h address k

/-- The mark is read off again, and what is behind it is in little order. -/
theorem decodeText_cutWide_marked (hn : nameFault? name = none)
    (hof : ofName? name = some .markedUtf16) (h : encodeText (some name) t = .ok coded)
    (address : Int) (k : Nat) :
    decodeText (some name) address (cutWide (coded ++ List.replicate (2 * k) 0)) =
      .ok (beforeNul t) := by
  obtain ⟨units, hunits, rfl⟩ := encode_marked ((encodeText_eq_ok_iff hn hof).mp h)
  refine decodeText_eq_ok hn hof rfl ?_ address
  rw [List.cons_append, List.cons_append, cutWide, if_neg (by decide)]
  exact decode_encodePoints (.utf16 .little) ((cuts_utf16 .little).encodePoints hunits k)

theorem decodeText_cutWide (hname : (name, e) ∈ wideNames)
    (h : encodeText (some name) t = .ok coded) (address : Int) (k : Nat) :
    decodeText (some name) address (cutWide (coded ++ List.replicate (2 * k) 0)) =
      .ok (beforeNul t) := by
  obtain ⟨hn, hof⟩ := known_of_mem _ (List.mem_append_right narrowNames hname)
  simp only [wideNames, List.mem_cons, Prod.mk.injEq, List.not_mem_nil, or_false] at hname
  rcases hname with ⟨-, rfl⟩ | ⟨-, rfl⟩ | ⟨-, rfl⟩
  · exact decodeText_cut hn hof (.utf16 .little) (cuts_utf16 .little) h address k
  · exact decodeText_cut hn hof (.utf16 .big) (cuts_utf16 .big) h address k
  · exact decodeText_cutWide_marked hn hof h address k

/-- A wide text fills a whole number of units, with its mark if it has one. -/
theorem two_dvd_length_wide (hname : (name, e) ∈ wideNames)
    (h : encodeText (some name) t = .ok coded) : 2 ∣ coded.length := by
  obtain ⟨hn, hof⟩ := known_of_mem _ (List.mem_append_right narrowNames hname)
  have hcoded := (encodeText_eq_ok_iff hn hof).mp h
  have hplain : ∀ order, e = .utf16 order → 2 ∣ coded.length := by
    rintro order rfl
    rw [encode_unmarked rfl] at hcoded
    exact two_dvd_length hcoded
  simp only [wideNames, List.mem_cons, Prod.mk.injEq, List.not_mem_nil, or_false] at hname
  rcases hname with ⟨-, he⟩ | ⟨-, he⟩ | ⟨-, rfl⟩
  · exact hplain .little he
  · exact hplain .big he
  · obtain ⟨units, hunits, rfl⟩ := encode_marked hcoded
    have := two_dvd_length hunits
    simp only [List.length_cons]
    omega

end TextSlots

end TypedMemory
