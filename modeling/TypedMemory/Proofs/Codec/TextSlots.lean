import TypedMemory.Proofs.Codec.Reading
import TypedMemory.Proofs.Decoding

/-!
# The end of a text in its slot

A text is read up to the first unit of its slot that is zero, a byte in a narrow slot and two
bytes in a wide one (`TypedMemory.Codec.TextKind.exists_cut`). What stands behind is never
looked at. When the text is written back it is put in front of zeros, so all that changes in the
slot are the bytes from that unit on, which become zero
(`TypedMemory.Codec.TextKind.getElem?_blanked`), and the text ends where it did before
(`TypedMemory.Codec.TextKind.cut_blanked`).
-/

namespace TypedMemory.Codec

/-! ### Units that are zero -/

/-- The unit at this place of a row of bytes is there and zero. -/
def IsNulUnit (unit : Nat) (bytes : Bytes) (i : Nat) : Prop :=
  ∀ j < unit, bytes[i * unit + j]? = some 0

section EndsAt

variable {unit i : Nat} {first bytes : Bytes}

theorem isNulUnit_append_succ (h : first.length = unit) :
    IsNulUnit unit (first ++ bytes) (i + 1) ↔ IsNulUnit unit bytes i := by
  have hplace : ∀ j, (first ++ bytes)[(i + 1) * unit + j]? = bytes[i * unit + j]? := by
    intro j
    rw [Nat.succ_mul, List.getElem?_append_right (by omega), h]
    congr 1
    omega
  simp only [IsNulUnit, hplace]

/-- **The text of the bytes ends** behind this many units: none of them is zero, and the next
one is, if there is one. -/
structure EndsAt (unit : Nat) (bytes : Bytes) (i : Nat) : Prop where
  le : i * unit ≤ bytes.length
  before : ∀ k < i, ¬IsNulUnit unit bytes k
  behind : i * unit = bytes.length ∨ IsNulUnit unit bytes i

namespace EndsAt

theorem nil : EndsAt unit [] 0 :=
  ⟨Nat.le_of_eq (Nat.zero_mul unit), fun k hk => absurd hk (Nat.not_lt_zero k),
    .inl (Nat.zero_mul unit)⟩

theorem zero (h : IsNulUnit unit bytes 0) : EndsAt unit bytes 0 :=
  ⟨by omega, fun k hk => absurd hk (Nat.not_lt_zero k), .inr h⟩

theorem cons (hlen : first.length = unit) (hfirst : ¬IsNulUnit unit (first ++ bytes) 0)
    (h : EndsAt unit bytes i) : EndsAt unit (first ++ bytes) (i + 1) := by
  refine ⟨?_, fun k hk => ?_, h.behind.imp (fun heq => ?_) (isNulUnit_append_succ hlen).mpr⟩
  · rw [List.length_append, Nat.succ_mul]
    have := h.le
    omega
  · cases k with
    | zero => exact hfirst
    | succ k => exact mt (isNulUnit_append_succ hlen).mp (h.before k (by omega))
  · rw [List.length_append, Nat.succ_mul]
    omega

/-- A text has one end. -/
theorem unique {k : Nat} (h : EndsAt unit bytes i) (h' : EndsAt unit bytes k) (hu : 0 < unit) :
    i = k := by
  -- Before the end of the one no unit is zero, and at the end of the other one is.
  have hnot : ∀ {i k}, EndsAt unit bytes i → EndsAt unit bytes k → ¬i < k := by
    intro i k h h' hlt
    have hmul : i * unit < k * unit := Nat.mul_lt_mul_of_pos_right hlt hu
    have hle := h'.le
    exact h'.before i hlt (h.behind.resolve_left (by omega))
  exact Nat.le_antisymm (Nat.not_lt.mp (hnot h' h)) (Nat.not_lt.mp (hnot h h'))

end EndsAt

end EndsAt

/-! ### Cutting -/

theorem isNulUnit_one_zero {b : UInt8} {rest : Bytes} : IsNulUnit 1 (b :: rest) 0 ↔ b = 0 := by
  constructor
  · intro h
    simpa using h 0 (by omega)
  · rintro rfl j hj
    obtain rfl : j = 0 := by omega
    rfl

theorem isNulUnit_two_zero {a b : UInt8} {rest : Bytes} :
    IsNulUnit 2 (a :: b :: rest) 0 ↔ a = 0 ∧ b = 0 := by
  constructor
  · intro h
    exact ⟨by simpa using h 0 (by omega), by simpa using h 1 (by omega)⟩
  · rintro ⟨rfl, rfl⟩ j hj
    obtain rfl | rfl : j = 0 ∨ j = 1 := by omega
    · rfl
    · rfl

theorem exists_cutNarrow (bytes : Bytes) :
    ∃ i, EndsAt 1 bytes i ∧ cutNarrow bytes = bytes.take (i * 1) := by
  induction bytes with
  | nil => exact ⟨0, .nil, rfl⟩
  | cons b rest ih =>
    by_cases hb : b = 0
    · exact ⟨0, .zero (isNulUnit_one_zero.mpr hb), by simp [cutNarrow, hb]⟩
    · obtain ⟨i, hi, hcut⟩ := ih
      have hnot : ¬IsNulUnit 1 ([b] ++ rest) 0 := mt isNulUnit_one_zero.mp hb
      have hend : EndsAt 1 ([b] ++ rest) (i + 1) := .cons rfl hnot hi
      refine ⟨i + 1, hend, ?_⟩
      rw [Nat.mul_one, List.take_succ_cons, ← Nat.mul_one i, ← hcut]
      simp [cutNarrow, hb]

theorem exists_cutWide {bytes : Bytes} (h : 2 ∣ bytes.length) :
    ∃ i, EndsAt 2 bytes i ∧ cutWide bytes = bytes.take (i * 2) := by
  fun_induction cutWide bytes with
  | case1 a b rest hzero => exact ⟨0, .zero (isNulUnit_two_zero.mpr hzero), rfl⟩
  | case2 a b rest hzero ih =>
    obtain ⟨i, hi, hcut⟩ := ih ((Nat.dvd_add_left (Nat.dvd_refl 2)).mp h)
    have hnot : ¬IsNulUnit 2 ([a, b] ++ rest) 0 := mt isNulUnit_two_zero.mp hzero
    have hend : EndsAt 2 ([a, b] ++ rest) (i + 1) := .cons rfl hnot hi
    refine ⟨i + 1, hend, ?_⟩
    rw [Nat.succ_mul, List.take_succ_cons, List.take_succ_cons, hcut]
  | case3 bytes hbytes =>
    match bytes with
    | [] => exact ⟨0, .nil, rfl⟩
    | [_] => simp at h
    | a :: b :: rest => exact absurd rfl (hbytes a b rest)

namespace TextKind

/-- The number of bytes in a unit of a kind of text. -/
def unit : TextKind → Nat
  | narrow => 1
  | wide => 2

theorem unit_pos (kind : TextKind) : 0 < kind.unit := by
  cases kind <;> decide

variable {kind : TextKind} {bytes : Bytes}

/-- **Cutting takes the bytes up to the first unit that is zero.** -/
theorem exists_cut (h : kind.unit ∣ bytes.length) :
    ∃ i, EndsAt kind.unit bytes i ∧ kind.cut bytes = bytes.take (i * kind.unit) := by
  cases kind with
  | narrow => exact exists_cutNarrow bytes
  | wide => exact exists_cutWide h

/-- The bytes of a slot with zeros behind its text. -/
def blanked (kind : TextKind) (bytes : Bytes) : Bytes :=
  kind.cut bytes ++ List.replicate (bytes.length - (kind.cut bytes).length) 0

theorem length_cut_le (h : kind.unit ∣ bytes.length) :
    (kind.cut bytes).length ≤ bytes.length := by
  obtain ⟨i, -, hcut⟩ := exists_cut h
  rw [hcut, List.length_take]
  exact Nat.min_le_right _ _

theorem length_blanked (h : kind.unit ∣ bytes.length) :
    (kind.blanked bytes).length = bytes.length := by
  have := length_cut_le h
  rw [blanked, List.length_append, List.length_replicate]
  omega

/-- **Blanking**, byte by byte: zeros from the end of the text on. -/
theorem getElem?_blanked {i : Nat} (h : EndsAt kind.unit bytes i)
    (hcut : kind.cut bytes = bytes.take (i * kind.unit)) {k : Nat} (hk : k < bytes.length) :
    (kind.blanked bytes)[k]? = if k < i * kind.unit then bytes[k]? else some 0 := by
  have hlen : (bytes.take (i * kind.unit)).length = i * kind.unit := by
    rw [List.length_take, Nat.min_eq_left h.le]
  rw [blanked, hcut]
  by_cases hlt : k < i * kind.unit
  · rw [List.getElem?_append_left (by omega), List.getElem?_take, if_pos hlt, if_pos hlt]
  · rw [List.getElem?_append_right (by omega), hlen, List.getElem?_replicate, if_neg hlt,
      if_pos (by omega)]

/-- With zeros behind it the text ends where it did. -/
theorem endsAt_blanked {i : Nat} (h : EndsAt kind.unit bytes i)
    (hcut : kind.cut bytes = bytes.take (i * kind.unit)) (hdvd : kind.unit ∣ bytes.length) :
    EndsAt kind.unit (kind.blanked bytes) i := by
  have hle := h.le
  refine ⟨by rwa [length_blanked hdvd], fun k hk hnul => h.before k hk fun j hj => ?_, ?_⟩
  · have hunit : (k + 1) * kind.unit ≤ i * kind.unit := Nat.mul_le_mul_right _ hk
    rw [Nat.succ_mul] at hunit
    have hbyte := hnul j hj
    rwa [getElem?_blanked h hcut (by omega), if_pos (by omega)] at hbyte
  · rw [length_blanked hdvd]
    refine h.behind.imp_right fun hnul j hj => ?_
    obtain ⟨hlt, -⟩ := List.getElem?_eq_some_iff.mp (hnul j hj)
    rw [getElem?_blanked h hcut hlt, if_neg (by omega)]

/-- **Blanking leaves the text** as it is read. -/
theorem cut_blanked (h : kind.unit ∣ bytes.length) :
    kind.cut (kind.blanked bytes) = kind.cut bytes := by
  obtain ⟨i, hend, hcut⟩ := exists_cut h
  have hdvd : kind.unit ∣ (kind.blanked bytes).length := by rwa [length_blanked h]
  obtain ⟨k, hend', hcut'⟩ := exists_cut hdvd
  obtain rfl := (endsAt_blanked hend hcut h).unique hend' kind.unit_pos
  rw [hcut', hcut, blanked, hcut, List.take_left']
  rw [List.length_take, Nat.min_eq_left hend.le]

end TextKind

/-! ### In memory -/

/-- **At or behind the first NUL** of a text slot: the address is in the slot, and some unit of
the slot that does not start behind it is zero. -/
def TextKind.BehindNul (kind : TextKind) (m : Memory) (slot : Slot) (x : Int) : Prop :=
  slot.Contains x ∧ ∃ i : Nat, slot.address + (i * kind.unit : Nat) ≤ x ∧
    ∀ j < kind.unit, i * kind.unit + j < slot.length ∧
      m.byteAt? (slot.address + (i * kind.unit + j : Nat)) = some 0

section Slots

variable {kind : TextKind} {m : Memory} {slot : Slot}

/-- The bytes of a slot that lies in memory. -/
theorem getElem?_slice_of_liesIn (h : slot.LiesIn m) {k : Nat} (hk : k < slot.length) :
    (m.slice slot.address slot.length)[k]? = m.byteAt? (slot.address + k) := by
  have hc := h.resolve_left (by omega)
  exact Memory.getElem?_slice_eq_byteAt? (Memory.covers_iff.mp hc).1 hk

theorem isNulUnit_slice_iff (h : slot.LiesIn m) {unit i : Nat} :
    IsNulUnit unit (m.slice slot.address slot.length) i ↔ ∀ j < unit,
      i * unit + j < slot.length ∧ m.byteAt? (slot.address + (i * unit + j : Nat)) = some 0 := by
  refine forall₂_congr fun j _ => ?_
  constructor
  · intro hbyte
    obtain ⟨hlt, -⟩ := List.getElem?_eq_some_iff.mp hbyte
    rw [Memory.length_slice_of_liesIn h] at hlt
    exact ⟨hlt, (getElem?_slice_of_liesIn h hlt).symm.trans hbyte⟩
  · rintro ⟨hlt, hbyte⟩
    exact (getElem?_slice_of_liesIn h hlt).trans hbyte

/-- **What writing a text back does to its slot**: a byte at or behind the first NUL becomes zero,
and any other byte stays. -/
theorem getElem?_blanked_slice (h : slot.LiesIn m) (hdvd : kind.unit ∣ slot.length) {k : Nat}
    (hk : k < slot.length) :
    (kind.BehindNul m slot (slot.address + k) →
      (kind.blanked (m.slice slot.address slot.length))[k]? = some 0) ∧
    (¬kind.BehindNul m slot (slot.address + k) →
      (kind.blanked (m.slice slot.address slot.length))[k]? = m.byteAt? (slot.address + k)) := by
  have hlen := Memory.length_slice_of_liesIn h
  rw [← hlen] at hdvd
  obtain ⟨i, hend, hcut⟩ := TextKind.exists_cut hdvd
  have hbyte := TextKind.getElem?_blanked hend hcut (hlen.symm ▸ hk)
  have hcontains : slot.Contains (slot.address + k) := ⟨by omega, by omega⟩
  by_cases hki : k < i * kind.unit
  · rw [if_pos hki, getElem?_slice_of_liesIn h hk] at hbyte
    refine ⟨?_, fun _ => hbyte⟩
    rintro ⟨-, u, hu, hnul⟩
    -- The text would end before its end.
    have hui : u < i := Nat.lt_of_mul_lt_mul_right (a := kind.unit) (by omega)
    exact absurd ((isNulUnit_slice_iff h).mpr hnul) (hend.before u hui)
  · rw [if_neg hki] at hbyte
    refine ⟨fun _ => hbyte, fun hnot => absurd ⟨hcontains, i, by omega, ?_⟩ hnot⟩
    exact (isNulUnit_slice_iff h).mp (hend.behind.resolve_left (by omega))

end Slots

/-! ### Decoding -/

/-- The options name encodings without a byte order mark, for both kinds of text. -/
def HasUnmarkedEncodings (options : Options) : Prop :=
  ∀ kind : TextKind, ∃ name e, kind.encoding options = some name ∧ nameFault? name = none ∧
    Encoding.ofName? name = some e ∧ e.mark = []

/-- The encodings without a byte order mark, by the names that options give them. -/
def unmarkedNames : List (Text × Encoding) :=
  [("utf-8", .utf8), ("ascii", .ascii), ("latin-1", .latin1), ("utf-16-le", .utf16 .little),
    ("utf-16-be", .utf16 .big), ("utf-32-le", .utf32 .little), ("utf-32-be", .utf32 .big)]

/-- These are names of these encodings. -/
theorem unmarked_of_mem : ∀ p ∈ unmarkedNames,
    nameFault? p.1 = none ∧ Encoding.ofName? p.1 = some p.2 ∧ p.2.mark = [] := by
  decide +kernel

/-- Any two of these names will do, be it for narrow or for wide text. -/
theorem hasUnmarkedEncodings_of_mem {options : Options}
    (h : ∀ kind : TextKind, ∃ name e, (name, e) ∈ unmarkedNames ∧
      kind.encoding options = some name) : HasUnmarkedEncodings options := by
  intro kind
  obtain ⟨name, e, hmem, henc⟩ := h kind
  exact ⟨name, e, henc, unmarked_of_mem (name, e) hmem⟩

variable [Host]

/-- A text that bytes were decoded as is what the encoding of that name makes of them. -/
theorem decode_of_decodeText {name : Text} {e : Encoding} (hfault : nameFault? name = none)
    (he : Encoding.ofName? name = some e) {address : Int} {bytes : Bytes} {t : Text}
    (h : decodeText (some name) address bytes = .ok t) : e.decode bytes = .ok t := by
  have hempty : e.decode [] = .ok [] := by cases e <;> rfl
  cases hd : e.decode bytes with
  | ok s =>
    rw [decodeText_eq_ok hfault he hempty hd] at h
    exact congrArg _ (Except.ok.inj h)
  | error fault =>
    have hfail : failure? (decodeText (some name) address bytes) =
        some (.decode address name fault) := (failure?_decodeText hfault he).mpr ⟨fault, hd, rfl⟩
    rw [h] at hfail
    cases hfail

/-- **What was decoded is coded as it was**, in an encoding without a byte order mark. -/
theorem encodeText_of_decodeText {name : Text} {e : Encoding} (hfault : nameFault? name = none)
    (he : Encoding.ofName? name = some e) (hmark : e.mark = []) {address : Int} {bytes : Bytes}
    {t : Text} (h : decodeText (some name) address bytes = .ok t) :
    encodeText (some name) t = .ok bytes :=
  (encodeText_eq_ok_iff hfault he).mpr
    (Encoding.encode_of_decode hmark (decode_of_decodeText hfault he h))

/-- **A text that was read** from a slot has bytes there: its own, with zeros behind them. -/
theorem textBytes?_of_decodeText {name : Text} {e : Encoding} (hfault : nameFault? name = none)
    (he : Encoding.ofName? name = some e) (hmark : e.mark = []) {kind : TextKind} {holds : Nat}
    (hdvd : kind.unit ∣ holds) {data : Bytes} (hlen : data.length = holds) {address : Int}
    {t : Text} (h : decodeText (some name) address (kind.cut data) = .ok t) :
    textBytes? (some name) holds t = some (kind.blanked data) := by
  subst hlen
  exact textBytes?_eq_some_iff.mpr
    ⟨_, encodeText_of_decodeText hfault he hmark h, TextKind.length_cut_le hdvd, rfl⟩

end TypedMemory.Codec
