import TypedMemory.Proofs.Codec.Footprint
import TypedMemory.Proofs.Encoding

/-!
# How reading ends

Reading goes through the leaves of a layout in order, and at each of them it may end. What it
has to get past are the **stops** of the layout: the slots of the leaves, and the counts of
collections, which are spelled before the first element is read. Whether a stop lets reading
go on hangs on the options and the memory alone, not on what has been read before. So reading
fails at the first stop that does not, and ends well if there is none
(`TypedMemory.Codec.failure?_read`).

For a memory on a device without faults, and encodings that there are, it can be said without
the code when a stop **refuses**, and with what failure (`TypedMemory.Codec.Stop.Refuses`): a
slot that does not lie in memory does, and a text that does not decode, and a number that is too
long to be spelled where it has to be. How a reading ends is told by these
(`TypedMemory.Codec.readAt_outcome`). So a count of thousands of digits ends the reading before
any element is looked at (`TypedMemory.Codec.readAt_count_too_long`).
-/

namespace TypedMemory

/-! ### Loading a slot -/

namespace Memory

variable {m m' : Memory} {s : Slot}

theorem length_slice_of_liesIn (h : s.LiesIn m) :
    (m.slice s.address s.length).length = s.length := by
  rcases h with h | h
  · simp [slice, h]
  · have := covers_iff.mp h
    rw [slice, List.length_take, List.length_drop, index]
    omega

theorem load_of_liesIn (hm : m.fault = none) (h : s.LiesIn m) :
    m.load s.address s.length = .ok (m.slice s.address s.length) := by
  by_cases hs : s.length = 0
  · rw [load, if_pos hs, hs]
    rfl
  · have hc : m.covers s.address s.length = true := h.resolve_left hs
    simp [load, if_neg hs, readBytes, hm, hc, length_slice_of_liesIn h]

theorem load_of_not_liesIn (hm : m.fault = none) (h : ¬s.LiesIn m) :
    m.load s.address s.length = m.outOfRange s.address s.length := by
  have hs : s.length ≠ 0 := fun hs => h (.inl hs)
  have hc : m.covers s.address s.length = false := by
    simpa using fun hc => h (.inr hc)
  have hat (cause : MemoryCause) :
      Fault.atAddress s.address (Error.memoryAccess s.address cause).raised =
        (Error.memoryAccess s.address cause).raised := by
    rw [Error.raised]
    split <;> rfl
  simp [load, if_neg hs, readBytes, hm, hc, outOfRange, Error.fail, hat]

/-- Two memories that both have the slot, with the same bytes in it, are read alike there. -/
theorem readsAlike_of_byteAt? (hm : m.fault = none) (hm' : m'.fault = none)
    (hs : s.length ≠ 0) (h : s.LiesIn m) (h' : s.LiesIn m')
    (hbytes : ∀ x, s.Contains x → m'.byteAt? x = m.byteAt? x) : ReadsAlike m m' s := by
  have hc : m.covers s.address s.length = true := h.resolve_left hs
  have hc' : m'.covers s.address s.length = true := h'.resolve_left hs
  have hslice : m'.slice s.address s.length = m.slice s.address s.length := by
    refine List.ext_getElem? fun i => ?_
    by_cases hi : i < s.length
    · rw [getElem?_slice_eq_byteAt? (covers_iff.mp hc').1 hi,
        getElem?_slice_eq_byteAt? (covers_iff.mp hc).1 hi]
      exact hbytes _ ⟨by omega, by omega⟩
    · rw [getElem?_slice, getElem?_slice, if_neg hi, if_neg hi]
  simp [ReadsAlike, readBytes, hm, hm', hc, hc', hslice]

end Memory

/-! ### The stops of a layout -/

/-- The two kinds of text slots. -/
inductive Codec.TextKind
  | narrow
  | wide
  deriving DecidableEq

/-- The name of the encoding for a kind of text. -/
def Codec.TextKind.encoding (options : Options) : Codec.TextKind → Option Text
  | narrow => options.textEncoding
  | wide => options.wideTextEncoding

/-- The bytes before the NUL of a kind of text. -/
def Codec.TextKind.cut : Codec.TextKind → Bytes → Bytes
  | narrow => cutNarrow
  | wide => cutWide

/-- What reading has to get past. -/
inductive Codec.Stop
  /-- The number of elements of a collection, spelled before the first of them is read. -/
  | count (n : Nat)
  /-- The slot of a number or an address. -/
  | number (slot : Slot)
  | text (kind : Codec.TextKind) (slot : Slot)
  deriving DecidableEq

/-- The slot that is read at the stop, if one is. -/
def Codec.Stop.slot? : Codec.Stop → Option Slot
  | count _ => none
  | number slot | text _ slot => some slot

open Codec (Stop)

namespace Layout

/-- **The stops of a layout** at an address, in the order in which reading gets to them. -/
def stops : Layout → Int → List Stop
  | .integer kind, address => [.number ⟨address, kind.width⟩]
  | .float kind, address => [.number ⟨address, kind.width⟩]
  | .rawAddress width, address => [.number ⟨address, width.bytes⟩]
  | .pointer width _, address => [.number ⟨address, width.bytes⟩]
  | .text length, address => [.text .narrow ⟨address, length⟩]
  | .wideText length, address => [.text .wide ⟨address, length * 2⟩]
  | .struct fields, address => fieldStops fields address
  | .collection element count, address =>
    .count count ::
      (List.range count).flatMap fun i : Nat => element.stops (address + i * element.size)
  | .foreign _, _ => []
where
  /-- The stops of the fields of a struct at an address. -/
  fieldStops : List (Field Layout) → Int → List Stop
  | [], _ => []
  | f :: rest, address => f.type.stops (address + f.offset) ++ fieldStops rest address

theorem slotsOfEach_eq_flatMap (slotsAt : Int → List Slot) (stride count : Nat) (address : Int) :
    slotsOfEach slotsAt stride count address =
      (List.range count).flatMap fun i : Nat => slotsAt (address + i * stride) := by
  induction count generalizing address with
  | zero => rfl
  | succ count ih =>
    rw [slotsOfEach, ih, List.range_succ_eq_map, List.flatMap_cons, List.flatMap_map]
    simp only [address_succ, Int.natCast_zero, Int.zero_mul, Int.add_zero]

/-- **The slots of the leaves** are those of the stops, in the same order. -/
theorem slots_stops (l : Layout) (address : Int) :
    (l.stops address).filterMap Stop.slot? = l.slots address := by
  induction l generalizing address with
  | struct fields ih =>
    rw [stops, slots]
    induction fields with
    | nil => rfl
    | cons f rest ih' =>
      rw [List.forall_mem_cons] at ih
      rw [stops.fieldStops, slots.fieldSlots, List.filterMap_append, ih.1, ih' ih.2]
  | collection element count ih =>
    rw [stops, slots, slotsOfEach_eq_flatMap, List.filterMap_cons_none rfl, List.filterMap_flatMap]
    simp only [ih]
  | _ => rfl

theorem mem_slots_of_mem_stops {l : Layout} {address : Int} {stop : Stop}
    (h : stop ∈ l.stops address) {slot : Slot} (hslot : stop.slot? = some slot) :
    slot ∈ l.slots address := by
  rw [← slots_stops]
  exact List.mem_filterMap.mpr ⟨stop, h, hslot⟩

end Layout

namespace Codec

section Reading

variable [Host] {options : Options} {m : Memory}

/-- **Why reading ends at a stop**, if it does: the failure to do what is done there. -/
def Stop.fault? (options : Options) (m : Memory) : Stop → Option Error
  | count n => failure? (spellable n)
  | number slot => failure? (m.load slot.address slot.length)
  | text kind slot => failure? do
    let data ← m.load slot.address slot.length
    decodeText (kind.encoding options) slot.address (kind.cut data)

/-! ### Reading ends at the first stop that it has to -/

omit [Host] in
theorem failure?_loadNumber (order : ByteOrder) (address : Int) (width : Nat) :
    failure? (m.loadNumber order address width) = failure? (m.load address width) := by
  rw [Memory.loadNumber]
  cases m.load address width <;> rfl

theorem failure?_readEach {readAt : Int → Except Error Value} {stopsAt : Int → List Stop}
    (h : ∀ address, failure? (readAt address) =
      (stopsAt address).findSome? (Stop.fault? options m))
    (stride count : Nat) (address : Int) :
    failure? (readEach readAt stride count address) =
      ((List.range count).flatMap fun i : Nat => stopsAt (address + i * stride)).findSome?
        (Stop.fault? options m) := by
  induction count generalizing address with
  | zero => rfl
  | succ count ih =>
    have hrest (v : Value) : failure? (readEach readAt stride count (address + stride) >>=
        fun rest => pure (v :: rest)) = _ := failure?_bind_pure.trans (ih (address + stride))
    rw [readEach, failure?_bind hrest, h, List.range_succ_eq_map, List.flatMap_cons,
      List.flatMap_map, List.findSome?_append]
    simp only [Layout.address_succ, Int.natCast_zero, Int.zero_mul, Int.add_zero]

theorem failure?_readFields {fields : List (Field Layout)}
    (h : ∀ f ∈ fields, ∀ address, failure? (read options m f.type address) =
      (f.type.stops address).findSome? (Stop.fault? options m)) (address : Int) :
    failure? (read.readFields options m fields address) =
      (Layout.stops.fieldStops fields address).findSome? (Stop.fault? options m) := by
  induction fields with
  | nil => rfl
  | cons f rest ih =>
    rw [List.forall_mem_cons] at h
    have hrest (v : Value) : failure? (read.readFields options m rest address >>=
        fun entries => pure (⟨f.name, v⟩ :: entries)) = _ := failure?_bind_pure.trans (ih h.2)
    rw [read.readFields, failure?_bind hrest, h.1, Layout.stops.fieldStops, List.findSome?_append]

/-- **Reading fails at the first stop at which it has to**, and ends well if there is none. -/
theorem failure?_read {l : Layout} (hg : l.isGenuine = true) (address : Int) :
    failure? (read options m l address) =
      (l.stops address).findSome? (Stop.fault? options m) := by
  induction l generalizing address with
  | integer kind | float kind | rawAddress width | pointer width inner =>
    rw [read, failure?_bind_pure, failure?_loadNumber, Layout.stops, List.findSome?_singleton]
    rfl
  | text length | wideText length =>
    rw [read, Layout.stops, List.findSome?_singleton, Stop.fault?]
    cases m.load address _ with
    | error e => rfl
    | ok data => exact failure?_bind_pure
  | struct fields ih =>
    rw [Layout.isGenuine, Layout.fieldsGenuine_iff] at hg
    rw [read, failure?_bind_pure, Layout.stops]
    exact failure?_readFields (fun f hf => ih f hf (hg f hf)) address
  | collection element count ih =>
    have hsize : element.size? = .ok element.size := Layout.size?_eq_ok hg
    rw [read, Layout.stops, List.findSome?_cons, Stop.fault?]
    cases spellable count with
    | error e => rfl
    | ok u =>
      rw [hsize]
      exact failure?_bind_pure.trans (failure?_readEach (ih hg) element.size count address)
  | foreign v => cases hg

/-! ### When a stop refuses -/

/-- The options name encodings that there are, for both kinds of text. -/
def HasEncodings (options : Options) : Prop :=
  ∀ kind : TextKind, ∃ name e, kind.encoding options = some name ∧ nameFault? name = none ∧
    Encoding.ofName? name = some e

omit [Host] in
theorem hasEncodings_default : HasEncodings {} := by
  intro kind
  cases kind with
  | narrow => exact ⟨"utf-8", .utf8, rfl, known_of_mem ("utf-8", .utf8) (by simp [narrowNames])⟩
  | wide =>
    exact ⟨"utf-16-le", .utf16 .little, rfl,
      known_of_mem ("utf-16-le", .utf16 .little) (by simp [wideNames])⟩

/-- **The stop ends the reading**, with this failure. -/
inductive Stop.Refuses (options : Options) (m : Memory) : Stop → Error → Prop
  /-- A count that is too long to be spelled. -/
  | count {n : Nat} (h : Numeral.isSpellable n = false) :
      Refuses options m (.count n) (.failure .longNumeral)
  /-- A slot, of some bytes, that does not lie in memory. -/
  | outside {stop : Stop} {slot : Slot} (hslot : stop.slot? = some slot) (h : ¬slot.LiesIn m)
      (hlength : Numeral.isSpellable slot.length = true) :
      Refuses options m stop
        (.memoryAccess slot.address (.outOfRange slot.length m.base m.limit))
  /-- Such a slot, of more bytes than could be told. -/
  | endless {stop : Stop} {slot : Slot} (hslot : stop.slot? = some slot) (h : ¬slot.LiesIn m)
      (hlength : Numeral.isSpellable slot.length = false) :
      Refuses options m stop (.failure .longNumeral)
  /-- Bytes before a NUL that are no text. -/
  | text {kind : TextKind} {slot : Slot} {name : Text} {e : Encoding} {fault : Encoding.Fault}
      (h : slot.LiesIn m) (hname : kind.encoding options = some name)
      (he : Encoding.ofName? name = some e)
      (hdecode : e.decode (kind.cut (m.slice slot.address slot.length)) = .error fault) :
      Refuses options m (.text kind slot) (.decode slot.address name fault)

theorem failure?_decodeText {name : Text} {e : Encoding} (hn : nameFault? name = none)
    (he : Encoding.ofName? name = some e) {address : Int} {bytes : Bytes} {err : Error} :
    failure? (decodeText (some name) address bytes) = some err ↔
      ∃ fault, e.decode bytes = .error fault ∧ err = .decode address name fault := by
  have hnil : e.decode [] = .ok [] := by cases e <;> rfl
  cases hd : e.decode bytes with
  | ok t =>
    rw [decodeText_eq_ok hn he hnil hd]
    simp [failure?]
  | error fault =>
    have hbytes : bytes ≠ [] := by
      rintro rfl
      cases hd.symm.trans hnil
    have herror : decodeText (some name) address bytes = .error (.decode address name fault) := by
      simp [decodeText, hn, TextCodec.named?_of_ofName? he, Encoding.decode_codec_of_error hd,
        hbytes, Error.fail, Error.raised, Error.numerals]
    rw [herror, failure?_eq_some_iff]
    constructor
    · rintro ⟨rfl⟩
      exact ⟨fault, rfl, rfl⟩
    · rintro ⟨fault, ⟨rfl⟩, rfl⟩
      rfl

namespace Stop

variable {stop : Stop} {slot : Slot} {e : Error}

theorem fault?_count {n : Nat} : (count n).fault? options m = some e ↔
    Numeral.isSpellable n = false ∧ e = .failure .longNumeral := by
  rw [fault?, failure?_eq_some_iff]
  exact spellable_eq_error_iff

/-- Reading fails to get a slot that is not there, and may fail to tell how long it is. -/
theorem fault?_of_not_liesIn (hm : m.fault = none) (hslot : stop.slot? = some slot)
    (h : ¬slot.LiesIn m) : stop.fault? options m =
      if Numeral.isSpellable slot.length then
        some (.memoryAccess slot.address (.outOfRange slot.length m.base m.limit))
      else some (.failure .longNumeral) := by
  have hload : stop.fault? options m =
      some (Error.memoryAccess slot.address (.outOfRange slot.length m.base m.limit)).raised := by
    cases stop with
    | count n => cases hslot
    | number s | text kind s =>
      cases hslot
      rw [fault?, Memory.load_of_not_liesIn hm h]
      rfl
  rw [hload, Error.raised, Error.numerals, List.all_cons, List.all_nil, Bool.and_true,
    apply_ite some]

theorem fault?_number_of_liesIn (hm : m.fault = none) (h : slot.LiesIn m) :
    (number slot).fault? options m = none := by
  rw [fault?, Memory.load_of_liesIn hm h]
  rfl

theorem fault?_text_of_liesIn (hm : m.fault = none) (h : slot.LiesIn m) {kind : TextKind}
    {name : Text} {encoding : Encoding} (hname : kind.encoding options = some name)
    (hn : nameFault? name = none) (he : Encoding.ofName? name = some encoding) :
    (text kind slot).fault? options m = some e ↔
      ∃ fault, encoding.decode (kind.cut (m.slice slot.address slot.length)) = .error fault ∧
        e = .decode slot.address name fault := by
  rw [fault?, Memory.load_of_liesIn hm h, hname]
  exact failure?_decodeText hn he

/-- A slot that is not there refuses. -/
theorem Refuses.of_fault? (hm : m.fault = none) (hslot : stop.slot? = some slot)
    (h : ¬slot.LiesIn m) (he : stop.fault? options m = some e) : stop.Refuses options m e := by
  rw [fault?_of_not_liesIn hm hslot h] at he
  cases hlength : Numeral.isSpellable slot.length with
  | true =>
    rw [hlength] at he
    cases he
    exact .outside hslot h hlength
  | false =>
    rw [hlength] at he
    cases he
    exact .endless hslot h hlength

/-- **A stop refuses** just as reading fails there. -/
theorem refuses_iff (ho : HasEncodings options) (hm : m.fault = none) :
    stop.Refuses options m e ↔ stop.fault? options m = some e := by
  constructor
  · intro h
    cases h with
    | count h => exact fault?_count.mpr ⟨h, rfl⟩
    | outside hslot h hlength => rw [fault?_of_not_liesIn hm hslot h, hlength, if_pos rfl]
    | endless hslot h hlength =>
      rw [fault?_of_not_liesIn hm hslot h, hlength, if_neg Bool.false_ne_true]
    | @text kind slot name encoding fault h hname he hdecode =>
      obtain ⟨name', encoding', hname', hn, he'⟩ := ho kind
      obtain rfl : name = name' := Option.some.inj (hname.symm.trans hname')
      exact (fault?_text_of_liesIn hm h hname hn he).mpr ⟨fault, hdecode, rfl⟩
  · intro he
    cases stop with
    | count n =>
      obtain ⟨h, rfl⟩ := fault?_count.mp he
      exact .count h
    | number slot =>
      by_cases h : slot.LiesIn m
      · rw [fault?_number_of_liesIn hm h] at he
        cases he
      · exact .of_fault? hm rfl h he
    | text kind slot =>
      by_cases h : slot.LiesIn m
      · obtain ⟨name, encoding, hname, hn, hencoding⟩ := ho kind
        obtain ⟨fault, hdecode, rfl⟩ := (fault?_text_of_liesIn hm h hname hn hencoding).mp he
        exact .text h hname hencoding hdecode
      · exact .of_fault? hm rfl h he

theorem forall_not_refuses_iff (ho : HasEncodings options) (hm : m.fault = none) :
    (∀ e, ¬stop.Refuses options m e) ↔ stop.fault? options m = none := by
  simp only [refuses_iff ho hm, Option.eq_none_iff_forall_ne_some, ne_eq]

omit [Host] in
/-- Where all slots lie in memory, a stop refuses a text or a count. -/
theorem Refuses.of_liesIn (h : stop.Refuses options m e)
    (hin : ∀ slot, stop.slot? = some slot → slot.LiesIn m) :
    (∃ address name fault, e = .decode address name fault) ∨
      e = .failure .longNumeral ∧ ∃ n, stop = .count n ∧ Numeral.isSpellable n = false := by
  cases h with
  | count h => exact .inr ⟨rfl, _, rfl, h⟩
  | outside hslot h _ | endless hslot h _ => exact absurd (hin _ hslot) h
  | text _ _ _ _ => exact .inl ⟨_, _, _, rfl⟩

end Stop

/-! ### The outcome -/

/-- **How a reading ends**, for a memory on a device without faults and encodings that there are.
It gives a value if no stop refuses. If one does, the first that does is where it fails, with the
failure of that stop. And what else is in the memory makes no difference: wherever all slots of
the leaves lie in memory, with the same bytes in them, reading ends in the same way, which is not
with a failure of memory. -/
theorem readAt_outcome {l : Layout} (hg : l.isGenuine = true) (ho : HasEncodings options)
    (hm : m.fault = none) {at_ : Value} {address : Nat} (hat : at_.location = .ok address) :
    ((∃ v, readAt options m l at_ = .ok v) ↔
      ∀ stop ∈ l.stops address, ∀ e, ¬stop.Refuses options m e) ∧
    (∀ e, readAt options m l at_ = .error e ↔ ∃ before stop after,
      l.stops address = before ++ stop :: after ∧ stop.Refuses options m e ∧
        ∀ b ∈ before, ∀ e, ¬b.Refuses options m e) ∧
    ∀ m' : Memory, m'.fault = none →
      (∀ s ∈ l.slots address, s.length ≠ 0 → s.LiesIn m ∧ s.LiesIn m' ∧
        ∀ x, s.Contains x → m'.byteAt? x = m.byteAt? x) →
      readAt options m' l at_ = readAt options m l at_ ∧
        ∀ e, readAt options m l at_ = .error e →
          (∃ address name fault, e = .decode address name fault) ∨
            e = .failure .longNumeral ∧
              ∃ n : Nat, .count n ∈ l.stops address ∧ Numeral.isSpellable n = false := by
  have hread (m : Memory) : readAt options m l at_ = read options m l address := by
    rw [readAt, hat]
    rfl
  have hfirst : ∀ e, read options m l address = .error e ↔ ∃ before stop after,
      l.stops address = before ++ stop :: after ∧ stop.Refuses options m e ∧
        ∀ b ∈ before, ∀ e, ¬b.Refuses options m e := by
    intro e
    simp only [Stop.forall_not_refuses_iff ho hm]
    simp only [Stop.refuses_iff ho hm]
    rw [← failure?_eq_some_iff, failure?_read hg, List.findSome?_eq_some_iff]
  simp only [hread]
  refine ⟨?_, hfirst, fun m' hm' h => ⟨read_congr fun s hs hlen => ?_, fun e he => ?_⟩⟩
  · simp only [Stop.forall_not_refuses_iff ho hm]
    rw [← failure?_eq_none_iff, failure?_read hg, List.findSome?_eq_none_iff]
  · obtain ⟨hin, hin', hbytes⟩ := h s hs hlen
    exact Memory.readsAlike_of_byteAt? hm hm' hlen hin hin' hbytes
  · obtain ⟨before, stop, after, hstops, hstop, -⟩ := (hfirst e).mp he
    have hmem : stop ∈ l.stops address := by simp [hstops]
    have hin : ∀ slot, stop.slot? = some slot → slot.LiesIn m := by
      intro slot hslot
      by_cases hlen : slot.length = 0
      · exact .inl hlen
      · exact (h slot (Layout.mem_slots_of_mem_stops hmem hslot) hlen).1
    rcases hstop.of_liesIn hin with hdecode | ⟨hlong, n, rfl, hn⟩
    · exact .inl hdecode
    · exact .inr ⟨hlong, n, hmem, hn⟩

end Reading

/-- The number lies in memory and the text behind it does not, but for its first two bytes. -/
theorem readAt_outcome_text_outside :
    readAt {} { bytes := [1, 2, 3, 4], base := 16 }
      (.struct [⟨0, "n", .integer .uint16⟩, ⟨2, "t", .text 3⟩]) (.int 16) =
    .error (.memoryAccess 18 (.outOfRange 3 16 20)) := by
  have hat : (Value.int 16).location = .ok 16 := rfl
  have hnumber : ∀ e, ¬(Stop.number ⟨16, 2⟩).Refuses {} { bytes := [1, 2, 3, 4], base := 16 } e :=
    (Stop.forall_not_refuses_iff hasEncodings_default rfl).mpr
      (Stop.fault?_number_of_liesIn rfl (by decide))
  refine ((readAt_outcome rfl hasEncodings_default rfl hat).2.1 _).mpr
    ⟨[.number ⟨16, 2⟩], .text .narrow ⟨18, 3⟩, [], rfl, ?_, ?_⟩
  · have hslot : (Stop.text .narrow ⟨18, 3⟩).slot? = some ⟨18, 3⟩ := rfl
    exact .outside hslot (by decide) (by decide)
  · intro b hb
    obtain rfl := List.mem_singleton.mp hb
    exact hnumber

/-- **The count comes first.** The first slot that does not lie in memory is the one behind its
last byte, and yet it is not there that reading a collection of so many bytes fails. -/
theorem readAt_count_too_long :
    let l := Layout.collection (.integer .uint8) (wordCount 14400)
    let m : Memory := { bytes := [0, 0, 0, 0] }
    l.isGenuine = true ∧ HasEncodings {} ∧ m.fault = none ∧
      (∃ before after, l.slots 0 = before ++ ⟨4, 1⟩ :: after ∧ ∀ s ∈ before, s.LiesIn m) ∧
      ¬(Slot.mk 4 1).LiesIn m ∧
      readAt {} m l (.int 0) = .error (.failure .longNumeral) := by
  have hspell : Numeral.isSpellable (wordCount 14400) = false := by
    rw [Numeral.isSpellable, decide_eq_false_iff_not, Int.natAbs_natCast,
      Nat.length_toDigits_le_iff (by decide) (by decide)]
    decide +kernel
  have hcount : 5 ≤ wordCount 14400 := by decide +kernel
  revert hspell hcount
  generalize wordCount 14400 = n
  intro hspell hcount l m
  refine ⟨rfl, hasEncodings_default, rfl, ?_, by decide, ?_⟩
  · obtain ⟨k, rfl⟩ := Nat.exists_eq_add_of_le' hcount
    exact ⟨[⟨0, 1⟩, ⟨1, 1⟩, ⟨2, 1⟩, ⟨3, 1⟩], _, rfl, by decide⟩
  · have hread : readAt {} m l (.int 0) = read {} m l 0 := rfl
    rw [hread, ← failure?_eq_some_iff, failure?_read rfl, Layout.stops, List.findSome?_cons,
      Stop.fault?_count.mpr ⟨hspell, rfl⟩]

end Codec

end TypedMemory
