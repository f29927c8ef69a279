import TypedMemory.Proofs.Codec.Rewriting

/-!
# Which encodings a text slot can hold

Options take any encoding for either kind of text, but where a text ends is found in bytes: at
the first that is zero in a narrow slot, and at the first two in a wide one. So not every
encoding goes with every slot. There are two laws that one would like to have.

* **What is written is read**: a text that the check accepts is written, and comes back up to its
  own first NUL (`TypedMemory.Codec.KeepsWritten`). This takes an encoding whose units are those
  of the slot.
* **What is read can be written**: a text that was read passes the check, and when it is written
  it is read again (`TypedMemory.Codec.KeepsRead`). This is lost only by the byte order mark, which
  is taken off when a text is read and needs room when it is written.

Both laws are decided by the name of the encoding (`TypedMemory.Codec.text_laws`).
-/

namespace TypedMemory.Codec

open Encoding

/-! ### The laws -/

namespace TextKind

/-- The layout of a slot for a text of this kind. -/
def layout : TextKind → Nat → Layout
  | narrow => .text
  | wide => .wideText

/-- The encodings in the units of a kind of text, by the names that options give them. -/
def names : TextKind → List (Text × Encoding)
  | narrow => narrowNames
  | wide => wideNames

end TextKind

/-- **What is written is read**: a text that is accepted for a slot inside of memory is written
there, and read again up to its first NUL.

The memory is such as can be made, so that there are zeros for a slot that lies in it. -/
def KeepsWritten [Host] (options : Options) (kind : TextKind) : Prop :=
  ∀ (length : Nat) (t : Text) (m : Memory) (at_ : Value) (address : Nat),
    m.IsWritable → m.bytes.length < Host.room → at_.location = .ok address →
    (Slot.mk address (kind.layout length).size).LiesIn m →
    check options (kind.layout length) (.text t) = .ok () →
    ∃ m', write options (kind.layout length) at_ (.text t) m = (.ok (), m') ∧
      readAt options m' (kind.layout length) at_ = .ok (.text (beforeNul t))

/-- **What is read can be written**: a text that was read is accepted for its slot, and when it
is written there it is read again. -/
def KeepsRead [Host] (options : Options) (kind : TextKind) : Prop :=
  ∀ (length : Nat) (t : Text) (m : Memory) (at_ : Value) (address : Nat),
    m.IsWritable → m.bytes.length < Host.room → at_.location = .ok address →
    readAt options m (kind.layout length) at_ = .ok (.text t) →
    check options (kind.layout length) (.text t) = .ok () ∧
    ∃ m', write options (kind.layout length) at_ (.text t) m = (.ok (), m') ∧
      readAt options m' (kind.layout length) at_ = .ok (.text t)

/-! ### One slot -/

section OneSlot

variable [Host] {options : Options} {kind : TextKind} {length : Nat} {t : Text} {bytes : Bytes}
  {m : Memory} {at_ : Value} {address : Nat}

omit [Host] in
theorem unit_dvd_size : kind.unit ∣ (kind.layout length).size := by
  cases kind with
  | narrow => exact Nat.one_dvd length
  | wide => exact Nat.dvd_mul_left 2 length

theorem leafBytes?_layout : leafBytes? options (kind.layout length) (.text t) =
    textBytes? (kind.encoding options) (kind.layout length).size t := by
  cases kind <;> rfl

theorem check_layout_iff : check options (kind.layout length) (.text t) = .ok () ↔
    ∃ bytes, textBytes? (kind.encoding options) (kind.layout length).size t = some bytes := by
  rw [check_leaf_iff (by cases kind <;> rfl), leafBytes?_layout]

/-- What is read as a text: what the bytes of the slot up to their NUL stand for. -/
theorem readAt_eq_text_iff (hat : at_.location = .ok address) :
    readAt options m (kind.layout length) at_ = .ok (.text t) ↔
      ∃ data, m.load address (kind.layout length).size = .ok data ∧
        decodeText (kind.encoding options) address (kind.cut data) = .ok t := by
  have hread : readAt options m (kind.layout length) at_ = (do
      let data ← m.load address (kind.layout length).size
      let t ← decodeText (kind.encoding options) address (kind.cut data)
      pure (.text t)) := by
    rw [readAt, hat]
    cases kind <;> rfl
  rw [hread]
  constructor
  · intro h
    obtain ⟨data, hdata, h⟩ := exists_of_bind_eq_ok h
    obtain ⟨s, hs, h⟩ := exists_of_bind_eq_ok h
    cases h
    exact ⟨data, hdata, hs⟩
  · rintro ⟨data, hdata, ht⟩
    simp only [hdata, ht, bind, Except.bind]
    rfl

/-- **Writing a text and reading it** comes down to coding and decoding it. -/
theorem write_readAt_text (h : textBytes? (kind.encoding options) (kind.layout length).size t =
      some bytes) (hm : m.IsWritable) (hroom : m.bytes.length < Host.room)
    (hat : at_.location = .ok address)
    (hin : (Slot.mk address (kind.layout length).size).LiesIn m) :
    ∃ m', write options (kind.layout length) at_ (.text t) m = (.ok (), m') ∧
      ∀ s, readAt options m' (kind.layout length) at_ = .ok (.text s) ↔
        decodeText (kind.encoding options) address (kind.cut bytes) = .ok s := by
  have hlen := length_of_textBytes? h
  have hfault : (Store.mk address bytes).fault? m = none := by
    refine (isPossible_of_liesIn hroom ?_).fault? hm
    rwa [Store.slot, hlen]
  have hload : (m.replace address bytes).load address (kind.layout length).size = .ok bytes :=
    hlen ▸ Store.load_replace_self hm.fault hfault
  refine ⟨m.replace address bytes, ?_, fun s => ?_⟩
  · rw [write_eq_store (check_layout_iff.mpr ⟨bytes, h⟩) hat,
      store_leaf (leafBytes?_layout.trans h), Store.perform_eq, hfault]
  · rw [readAt_eq_text_iff hat, hload]
    simp

end OneSlot

/-! ### Where the laws hold -/

section Laws

variable [Host] {options : Options} {kind : TextKind} {name : Text} {e : Encoding}

/-- In the units of the slot a text ends where it is cut. -/
theorem keepsWritten_of_mem (hname : (name, e) ∈ kind.names)
    (henc : kind.encoding options = some name) : KeepsWritten options kind := by
  intro length t m at_ address hm hroom hat hin hcheck
  obtain ⟨bytes, hbytes⟩ := check_layout_iff.mp hcheck
  obtain ⟨m', hwrite, hread⟩ := write_readAt_text hbytes hm hroom hat hin
  refine ⟨m', hwrite, (hread _).mpr ?_⟩
  rw [henc] at hbytes ⊢
  cases kind with
  | narrow => exact decodeText_narrow hname hbytes address
  | wide => exact decodeText_wide hname hbytes address

/-- Without a mark the text that was read is coded as it was, up to where it was cut. -/
theorem keepsRead_of_mem (hname : (name, e) ∈ unmarkedNames)
    (henc : kind.encoding options = some name) : KeepsRead options kind := by
  intro length t m at_ address hm hroom hat hread
  obtain ⟨hfault, he, hmark⟩ := unmarked_of_mem _ hname
  obtain ⟨data, hdata, hdecode⟩ := (readAt_eq_text_iff hat).mp hread
  obtain ⟨hin, -⟩ : (Slot.mk address (kind.layout length).size).LiesIn m ∧ _ :=
    eq_slice_of_load hm.fault hdata
  have hlen := Memory.length_of_load hdata
  have hbytes : textBytes? (kind.encoding options) (kind.layout length).size t =
      some (kind.blanked data) := by
    rw [henc] at hdecode ⊢
    exact textBytes?_of_decodeText hfault he hmark unit_dvd_size hlen hdecode
  obtain ⟨m', hwrite, hread'⟩ := write_readAt_text hbytes hm hroom hat hin
  refine ⟨check_layout_iff.mpr ⟨_, hbytes⟩, m', hwrite, (hread' t).mpr ?_⟩
  rwa [TextKind.cut_blanked (hlen.symm ▸ unit_dvd_size)]

/-! ### Where they fail -/

omit [Host] in
/-- A memory that is nothing but one slot. -/
theorem load_all (data : Bytes) :
    Memory.load { bytes := data } ((0 : Nat) : Int) data.length = .ok data := by
  have hin : (Slot.mk ((0 : Nat) : Int) data.length).LiesIn { bytes := data } :=
    .inr (Memory.covers_iff.mpr ⟨Int.le_refl 0, Int.natCast_nonneg _, Int.le_refl _⟩)
  refine (Memory.load_of_liesIn rfl hin).trans ?_
  simp [Memory.slice, Memory.index]

/-- What the first law says of the bytes of a text. -/
theorem KeepsWritten.decodeText_cut (h : KeepsWritten options kind) {length : Nat} {t : Text}
    {bytes : Bytes} (hroom : bytes.length < Host.room)
    (hbytes : textBytes? (kind.encoding options) (kind.layout length).size t = some bytes) :
    decodeText (kind.encoding options) 0 (kind.cut bytes) = .ok (beforeNul t) := by
  -- The memory is what is written, so that it can be seen to be one slot.
  let m : Memory := { bytes }
  have hm : m.IsWritable := ⟨rfl, rfl⟩
  have hat : (Value.int 0).location = .ok 0 := rfl
  have hload : m.load ((0 : Nat) : Int) (kind.layout length).size = .ok bytes :=
    length_of_textBytes? hbytes ▸ load_all bytes
  obtain ⟨hin, -⟩ : (Slot.mk ((0 : Nat) : Int) (kind.layout length).size).LiesIn m ∧ _ :=
    eq_slice_of_load rfl hload
  obtain ⟨m', hwrite, hread⟩ := h length t m (.int 0) 0 hm hroom hat hin
    (check_layout_iff.mpr ⟨bytes, hbytes⟩)
  obtain ⟨m'', hwrite', hread'⟩ := write_readAt_text hbytes hm hroom hat hin
  obtain rfl : m' = m'' := (Prod.mk.inj (hwrite.symm.trans hwrite')).2
  exact (hread' _).mp hread

/-- What the second law says of the bytes of a slot. -/
theorem KeepsRead.exists_textBytes? (h : KeepsRead options kind) {length : Nat} {t : Text}
    {data : Bytes} (hroom : data.length < Host.room)
    (hlen : data.length = (kind.layout length).size)
    (ht : decodeText (kind.encoding options) 0 (kind.cut data) = .ok t) :
    ∃ bytes, textBytes? (kind.encoding options) data.length t = some bytes := by
  let m : Memory := { bytes := data }
  have hat : (Value.int 0).location = .ok 0 := rfl
  have hload : m.load ((0 : Nat) : Int) (kind.layout length).size = .ok data :=
    hlen ▸ load_all data
  obtain ⟨hcheck, -⟩ := h length t m (.int 0) 0 ⟨rfl, rfl⟩ hroom hat
    ((readAt_eq_text_iff hat).mpr ⟨data, hload, ht⟩)
  rw [hlen]
  exact check_layout_iff.mp hcheck

/-- The encodings that are looked at here, by the names that options give them: those without a
byte order mark, and one with it. -/
def slotNames : List (Text × Encoding) :=
  ("utf-16", .markedUtf16) :: unmarkedNames

omit [Host] in
theorem known_of_mem_slotNames (hname : (name, e) ∈ slotNames) :
    nameFault? name = none ∧ ofName? name = some e := by
  rcases List.mem_cons.mp hname with heq | hname
  · cases heq
    exact known_of_mem ("utf-16", .markedUtf16) (by decide)
  · obtain ⟨hfault, he, -⟩ := unmarked_of_mem _ hname
    exact ⟨hfault, he⟩

omit [Host] in
/-- In other units than those of the slot one letter is cut too early or too late. -/
theorem decode_cut_letter : ∀ kind : TextKind, ∀ p ∈ slotNames, p ∉ kind.names →
    ∃ coded, p.2.encode "a" = .ok coded ∧ coded.length ≤ 4 ∧ (p.2.decode (kind.cut
      (coded ++ List.replicate ((kind.layout 4).size - coded.length) 0))).toOption ≠ some "a" := by
  intro kind p hp hnot
  simp only [slotNames, unmarkedNames, List.mem_cons, List.not_mem_nil, or_false] at hp
  -- Each encoding is one of those of the slot, or the letter does not come back.
  rcases hp with rfl | rfl | rfl | rfl | rfl | rfl | rfl | rfl <;> cases kind <;>
    first
    | exact absurd (by decide) hnot
    | exact ⟨_, rfl, by decide, by decide⟩

theorem mem_of_keepsWritten (hname : (name, e) ∈ slotNames)
    (henc : kind.encoding options = some name) (h : KeepsWritten options kind) :
    (name, e) ∈ kind.names := by
  refine Decidable.byContradiction fun hnot => ?_
  obtain ⟨hfault, he⟩ := known_of_mem_slotNames hname
  obtain ⟨coded, hcoded, hle, hdecode⟩ := decode_cut_letter kind _ hname hnot
  have hsize : 4 ≤ (kind.layout 4).size ∧ (kind.layout 4).size < Host.room := by
    have hroom := Host.lt_room
    cases kind <;> simp only [TextKind.layout, Layout.size] <;> omega
  have hbytes : textBytes? (some name) (kind.layout 4).size "a" =
      some (coded ++ List.replicate ((kind.layout 4).size - coded.length) 0) :=
    textBytes?_eq_some_iff.mpr
      ⟨coded, (encodeText_eq_ok_iff hfault he).mpr hcoded, Nat.le_trans hle hsize.1, rfl⟩
  have hroom := length_of_textBytes? hbytes ▸ hsize.2
  rw [← henc] at hbytes
  have hread := h.decodeText_cut hroom hbytes
  rw [henc] at hread
  exact hdecode (congrArg Except.toOption (decode_of_decodeText hfault he hread))

omit [Host] in
/-- Units without a mark are read as a text that there is no room to mark. -/
theorem decode_unmarked (kind : TextKind) : ∃ length data t coded,
    data.length = (kind.layout length).size ∧ data.length ≤ 8 ∧
      markedUtf16.decode (kind.cut data) = .ok t ∧ markedUtf16.encode t = .ok coded ∧
      data.length < coded.length := by
  cases kind with
  | narrow => exact ⟨2, [0x41, 0x42], [.ofNat 0x4241], _, rfl, by decide, rfl, rfl, by decide⟩
  | wide => exact ⟨1, [0x41, 0x42], [.ofNat 0x4241], _, rfl, by decide, rfl, rfl, by decide⟩

theorem not_keepsRead (henc : kind.encoding options = some ("utf-16" : Text)) :
    ¬KeepsRead options kind := by
  intro h
  obtain ⟨hfault, he⟩ := known_of_mem_slotNames (List.mem_cons_self : (_, markedUtf16) ∈ slotNames)
  obtain ⟨length, data, t, coded, hlen, hshort, hdecode, hencode, hlt⟩ := decode_unmarked kind
  have ht := decodeText_eq_ok hfault he rfl hdecode 0
  rw [← henc] at ht
  obtain ⟨bytes, hbytes⟩ := h.exists_textBytes? (Nat.lt_of_le_of_lt hshort Host.lt_room) hlen ht
  rw [henc] at hbytes
  obtain ⟨coded', hcoded', hle, -⟩ := textBytes?_eq_some_iff.mp hbytes
  cases hencode.symm.trans ((encodeText_eq_ok_iff hfault he).mp hcoded')
  exact absurd hle (Nat.not_le.mpr hlt)

end Laws

/-- **Which encodings a text slot can hold.** What is written is read just where the encoding has
the units of the slot, and what is read can be written just where it has no byte order mark. -/
theorem text_laws [Host] {options : Options} {kind : TextKind} {name : Text} {e : Encoding}
    (hname : (name, e) ∈ slotNames) (henc : kind.encoding options = some name) :
    (KeepsWritten options kind ↔ (name, e) ∈ kind.names) ∧
    (KeepsRead options kind ↔ name ≠ "utf-16") := by
  refine ⟨⟨mem_of_keepsWritten hname henc, fun h => keepsWritten_of_mem h henc⟩, ?_, ?_⟩
  · rintro h rfl
    exact not_keepsRead henc h
  · intro hne
    rcases List.mem_cons.mp hname with heq | hname
    · exact absurd (congrArg Prod.fst heq) hne
    · exact keepsRead_of_mem hname henc

/-- The encodings that options have unless they name others go with both kinds of text. The one
with a mark goes with wide text alone, and only as far as what was written is read. -/
theorem text_laws_default_and_marked :
    (KeepsWritten {} .narrow ∧ KeepsRead {} .narrow) ∧
    (KeepsWritten {} .wide ∧ KeepsRead {} .wide) ∧
    (¬KeepsWritten { textEncoding := some "utf-16" } .narrow ∧
      ¬KeepsRead { textEncoding := some "utf-16" } .narrow) ∧
    (KeepsWritten { wideTextEncoding := some "utf-16" } .wide ∧
      ¬KeepsRead { wideTextEncoding := some "utf-16" } .wide) := by
  have hutf8 : (("utf-8", .utf8) : Text × Encoding) ∈ slotNames := by decide
  have hlittle : (("utf-16-le", .utf16 .little) : Text × Encoding) ∈ slotNames := by decide
  have hmarked : (("utf-16", .markedUtf16) : Text × Encoding) ∈ slotNames := by decide
  refine ⟨?_, ?_, ?_, ?_⟩
  · obtain ⟨hwritten, hread⟩ : (KeepsWritten {} .narrow ↔ _) ∧ _ := text_laws hutf8 rfl
    exact ⟨hwritten.mpr (by decide), hread.mpr (by decide)⟩
  · obtain ⟨hwritten, hread⟩ : (KeepsWritten {} .wide ↔ _) ∧ _ := text_laws hlittle rfl
    exact ⟨hwritten.mpr (by decide), hread.mpr (by decide)⟩
  · obtain ⟨hwritten, hread⟩ : (KeepsWritten { textEncoding := some "utf-16" } .narrow ↔ _) ∧ _ :=
      text_laws hmarked rfl
    exact ⟨mt hwritten.mp (by decide), fun h => hread.mp h rfl⟩
  · obtain ⟨hwritten, hread⟩ : (KeepsWritten { wideTextEncoding := some "utf-16" } .wide ↔ _) ∧ _ :=
      text_laws hmarked rfl
    exact ⟨hwritten.mpr (by decide), fun h => hread.mp h rfl⟩

end TypedMemory.Codec
