import TypedMemory.Proofs.Effect
import TypedMemory.Proofs.Memory

/-!
# Memory as a map

Whatever has been read and written before, a memory without faults grants an access by where it
lies, and for a write by whether the memory can be written at all. This is settled once and for all,
for no access moves or resizes the memory. A read gives at each address the byte of the last write
there that was granted, or the first byte of the memory (`TypedMemory.Memory.access_outcome`). So
nothing is left of an access that is refused, and addresses below the base or behind the end are
never taken for others, as places in a row of bytes that are counted from its end.

What is refused fails as a failed access, with one exception: the failure to read or write outside
tells how many bytes were asked for, and a number of too many digits cannot be told.
-/

namespace TypedMemory.Memory

/-- A read of so many bytes, or a write of bytes. -/
inductive Access
  | read (address count : Int)
  | write (address : Int) (data : Bytes)

namespace Access

/-- The address of the first byte. -/
@[simp] def address : Access → Int
  | read address _ => address
  | write address _ => address

/-- How many bytes there are to be. -/
@[simp] def count : Access → Int
  | read _ count => count
  | write _ data => data.length

/-- Whether it is a write. -/
@[simp] def isWrite : Access → Bool
  | read _ _ => false
  | write _ _ => true

/-- What an access comes to, and the memory behind it. A write gives no bytes. -/
def perform (m : Memory) : Access → Except Error Bytes × Memory
  | read address count => (m.readBytes address count, m)
  | write address data =>
    match m.writeBytes address data with
    | .ok m' => (.ok [], m')
    | .error e => (.error e, m)

/-- The memory behind accesses one after another. -/
def performAll (m : Memory) (accesses : List Access) : Memory :=
  accesses.foldl (fun m a => (a.perform m).2) m

/-- **What a memory grants**: accesses that lie in it, and writes only if it can be written. -/
def IsGranted (m : Memory) (a : Access) : Prop :=
  m.base ≤ a.address ∧ 0 ≤ a.count ∧ a.address + a.count ≤ m.base + m.bytes.length ∧
    (a.isWrite = true → m.readOnly = false)

instance (m : Memory) (a : Access) : Decidable (a.IsGranted m) :=
  inferInstanceAs (Decidable (_ ∧ _ ∧ _ ∧ _))

/-- The failure of an access that is not granted. -/
def refusal (m : Memory) (a : Access) : Error :=
  if a.isWrite && m.readOnly then .memoryAccess a.address .readOnly
  else if Numeral.isSpellable a.count then
    .memoryAccess a.address (.outOfRange a.count m.base m.limit)
  else .failure .longNumeral

/-- The byte that an access puts at an address of a memory. -/
def written? (m : Memory) (x : Int) : Access → Option UInt8
  | read _ _ => none
  | write address data =>
    if (write address data).IsGranted m ∧ (Slot.mk address data.length).Contains x then
      data[(x - address).toNat]?
    else none

/-- **The byte that was put last** at an address of a memory, if one was. -/
def latest? (m : Memory) (x : Int) : List Access → Option UInt8
  | [] => none
  | a :: later => (latest? m x later).or (a.written? m x)

/-! ### One access -/

variable {m m' : Memory} {a : Access}

theorem isGranted_iff : a.IsGranted m ↔
    m.covers a.address a.count = true ∧ (a.isWrite = true → m.readOnly = false) := by
  rw [covers_iff, IsGranted, and_assoc, and_assoc]

theorem raised_outOfRange (address count first past : Int) :
    (Error.memoryAccess address (.outOfRange count first past)).raised =
      if Numeral.isSpellable count then .memoryAccess address (.outOfRange count first past)
      else .failure .longNumeral := by
  simp [Error.raised, Error.numerals]

theorem perform_read {address count : Int} (hfault : m.fault = none)
    (h : (read address count).IsGranted m) :
    (read address count).perform m = (.ok (m.slice address count.toNat), m) := by
  have hcovers : m.covers address count = true := (isGranted_iff.mp h).1
  simp [perform, readBytes, hfault, hcovers]

theorem perform_write {address : Int} {data : Bytes} (hfault : m.fault = none)
    (h : (write address data).IsGranted m) :
    (write address data).perform m = (.ok [], m.replace address data) := by
  obtain ⟨hcovers, hwrite⟩ := isGranted_iff.mp h
  have hcovers' : m.covers address data.length = true := hcovers
  simp [perform, writeBytes, writeFault?, hfault, hwrite rfl, hcovers']

/-- **What is not granted** fails, and changes nothing. -/
theorem perform_of_not_isGranted (hfault : m.fault = none) (h : ¬a.IsGranted m) :
    a.perform m = (.error (a.refusal m), m) := by
  rw [isGranted_iff] at h
  cases a with
  | read address count =>
    have hcovers : m.covers address count = false := by simpa using h
    simp only [perform, readBytes, hfault, hcovers, reduceCtorEq, if_false, Bool.not_false, if_true,
      outOfRange, Error.fail, raised_outOfRange]
    rfl
  | write address data =>
    cases hreadOnly : m.readOnly with
    | true => simp [perform, writeBytes, writeFault?, hfault, hreadOnly, refusal]
    | false =>
      have hcovers : m.covers address data.length = false := by simpa [hreadOnly] using h
      simp only [perform, writeBytes, writeFault?, hfault, hreadOnly, hcovers, raised_outOfRange,
        reduceCtorEq, Bool.false_eq_true, if_false, Bool.not_false, if_true]
      rw [refusal, hreadOnly]
      rfl

/-- An access is done exactly if it is granted. -/
theorem exists_perform_iff (hfault : m.fault = none) :
    (∃ data, (a.perform m).1 = .ok data) ↔ a.IsGranted m := by
  constructor
  · rintro ⟨data, hdata⟩
    refine Decidable.byContradiction fun hnot => ?_
    rw [perform_of_not_isGranted hfault hnot] at hdata
    cases hdata
  · intro h
    cases a with
    | read address count => exact ⟨_, congrArg Prod.fst (perform_read hfault h)⟩
    | write address data => exact ⟨_, congrArg Prod.fst (perform_write hfault h)⟩

/-- An access that fails changes nothing, and is refused. -/
theorem perform_eq_error {e : Error} (hfault : m.fault = none)
    (h : (a.perform m).1 = .error e) : (a.perform m).2 = m ∧ e = a.refusal m := by
  have hnot : ¬a.IsGranted m := by
    rw [← exists_perform_iff hfault]
    rintro ⟨data, hdata⟩
    cases h.symm.trans hdata
  rw [perform_of_not_isGranted hfault hnot] at h ⊢
  exact ⟨rfl, (Except.error.inj h).symm⟩

/-- An access leaves the memory where it is. -/
theorem sameFrame_perform (hfault : m.fault = none) (a : Access) :
    SameFrame m (a.perform m).2 := by
  by_cases h : a.IsGranted m
  · cases a with
    | read address count => exact .refl m
    | write address data =>
      rw [perform_write hfault h]
      exact sameFrame_replace (isGranted_iff.mp h).1
  · rw [perform_of_not_isGranted hfault h]
    exact .refl m

/-- **The bytes behind an access** are those that it puts, and where it puts none those before. -/
theorem byteAt?_perform (hfault : m.fault = none) (a : Access) (x : Int) :
    (a.perform m).2.byteAt? x = (a.written? m x).or (m.byteAt? x) := by
  by_cases h : a.IsGranted m
  · cases a with
    | read address count => rfl
    | write address data =>
      have hcovers : m.covers address data.length = true := (isGranted_iff.mp h).1
      rw [perform_write hfault h, byteAt?_replace hcovers, written?]
      by_cases hx : (Slot.mk address data.length).Contains x
      · have hlt : (x - address).toNat < data.length := by
          obtain ⟨hlow, hhigh⟩ := hx
          dsimp only at hlow hhigh
          omega
        rw [if_pos hx, if_pos ⟨h, hx⟩, List.getElem?_eq_getElem hlt]
        rfl
      · rw [if_neg hx, if_neg fun hboth => hx hboth.2]
        rfl
  · rw [perform_of_not_isGranted hfault h]
    cases a with
    | read address count => rfl
    | write address data =>
      rw [written?, if_neg fun hboth => h hboth.1]
      rfl

/-! ### Many accesses -/

theorem isGranted_congr (h : SameFrame m m') (a : Access) : a.IsGranted m' ↔ a.IsGranted m := by
  rw [isGranted_iff, isGranted_iff, h.covers, h.readOnly]

theorem refusal_congr (h : SameFrame m m') (a : Access) : a.refusal m' = a.refusal m := by
  rw [refusal, refusal, h.readOnly, h.base, h.limit]

theorem written?_congr (h : SameFrame m m') (x : Int) (a : Access) :
    a.written? m' x = a.written? m x := by
  cases a with
  | read address count => rfl
  | write address data => simp only [written?, isGranted_congr h]

theorem latest?_congr (h : SameFrame m m') (x : Int) (accesses : List Access) :
    latest? m' x accesses = latest? m x accesses := by
  induction accesses with
  | nil => rfl
  | cons a later ih => rw [latest?, latest?, ih, written?_congr h]

/-- Accesses leave the memory where it is: by induction, one access at a time. -/
theorem sameFrame_performAll (hfault : m.fault = none) (accesses : List Access) :
    SameFrame m (performAll m accesses) := by
  induction accesses generalizing m with
  | nil => exact .refl m
  | cons a later ih =>
    have hframe := sameFrame_perform hfault a
    exact hframe.trans (ih (hframe.fault.trans hfault))

/-- **The bytes behind accesses** are those that were put last, and else the first ones. -/
theorem byteAt?_performAll (hfault : m.fault = none) (accesses : List Access) (x : Int) :
    (performAll m accesses).byteAt? x = (latest? m x accesses).or (m.byteAt? x) := by
  induction accesses generalizing m with
  | nil => rfl
  | cons a later ih =>
    have hframe := sameFrame_perform hfault a
    rw [performAll, List.foldl_cons, ← performAll, ih (hframe.fault.trans hfault),
      latest?_congr hframe, byteAt?_perform hfault, latest?, Option.or_assoc]

/-- **What a read gives** is the bytes at its addresses, as many as were asked for. -/
theorem getElem?_read {address count : Int} {data : Bytes} (hfault : m.fault = none)
    (h : ((read address count).perform m).1 = .ok data) :
    (data.length : Int) = count ∧
      ∀ i < data.length, data[i]? = m.byteAt? (address + i) := by
  by_cases hgranted : (read address count).IsGranted m
  · rw [perform_read hfault hgranted] at h
    obtain rfl := Except.ok.inj h
    obtain ⟨hlow, hcount, hhigh, -⟩ := hgranted
    dsimp only [Access.address, Access.count] at hlow hcount hhigh
    have hlength : (m.slice address count.toNat).length = count.toNat := by
      rw [slice, List.length_take, List.length_drop, index]
      omega
    rw [hlength]
    exact ⟨by omega, fun i hi => getElem?_slice_eq_byteAt? hlow hi⟩
  · rw [perform_of_not_isGranted hfault hgranted] at h
    cases h

end Access

open Access

/-- **A memory is a map from addresses to bytes.** Behind any accesses, it lies where it lay and has
as many bytes. An access is done exactly if it lies in the memory and is no write to one that is
read-only. Otherwise it changes nothing and fails as a failed access at its address, unless it would
have to be told of a number of bytes that is too long. A read that is done gives as many bytes as
were asked for, at each address the one that was put there last, or the first one. -/
theorem access_outcome {m : Memory} (hfault : m.fault = none) (before : List Access) (a : Access) :
    SameFrame m (performAll m before) ∧
    ((∃ data, (a.perform (performAll m before)).1 = .ok data) ↔
      m.base ≤ a.address ∧ 0 ≤ a.count ∧ a.address + a.count ≤ m.base + m.bytes.length ∧
        (a.isWrite = true → m.readOnly = false)) ∧
    (∀ e, (a.perform (performAll m before)).1 = .error e →
      (a.perform (performAll m before)).2 = performAll m before ∧
      e = if a.isWrite && m.readOnly then .memoryAccess a.address .readOnly
        else if Numeral.isSpellable a.count then
          .memoryAccess a.address (.outOfRange a.count m.base m.limit)
        else .failure .longNumeral) ∧
    ∀ address count data, a = .read address count →
      (a.perform (performAll m before)).1 = .ok data →
        (data.length : Int) = count ∧ ∀ i < data.length, data[i]? =
          (latest? m (address + i) before).or (m.byteAt? (address + i)) := by
  have hframe := sameFrame_performAll hfault before
  have hfault' := hframe.fault.trans hfault
  refine ⟨hframe, (exists_perform_iff hfault').trans (isGranted_congr hframe a), fun e he => ?_, ?_⟩
  · obtain ⟨hsame, hrefusal⟩ := perform_eq_error hfault' he
    exact ⟨hsame, hrefusal.trans (refusal_congr hframe a)⟩
  · rintro address count data rfl hdata
    simp only [← byteAt?_performAll hfault]
    exact getElem?_read hfault' hdata

/-- Four bytes at an address below zero: two writes that overlap, one that reaches behind the end
and one of no bytes below the base, which are refused, and one of no bytes at the end. -/
theorem access_outcome_overlapping :
    let m : Memory := ⟨[0, 0, 0, 0], -2, false, none⟩
    let before : List Access :=
      [.write (-2) [1, 2, 3], .write (-1) [9], .write 0 [7, 7, 7], .write (-3) [], .write 2 []]
    ((Access.read (-2) 4).perform (performAll m before)).1 = .ok [1, 9, 3, 0] ∧
      latest? m (-1) before = some 9 ∧
      ([1, 9, 3, 0] : Bytes)[1]? = (latest? m (-1) before).or (m.byteAt? (-1)) ∧
      (performAll m before).bytes.length = 4 := by
  intro m before
  obtain ⟨hframe, -, -, hread⟩ := access_outcome (m := m) rfl before (.read (-2) 4)
  have hdata : ((Access.read (-2) 4).perform (performAll m before)).1 = .ok [1, 9, 3, 0] :=
    eq_ok_of_toOption (by decide +kernel)
  exact ⟨hdata, by decide +kernel, (hread (-2) 4 _ rfl hdata).2 1 (by decide), hframe.length⟩

/-- A read that reaches behind the end, of more bytes than can be told. -/
theorem Access.perform_of_unspellable {m : Memory} (hfault : m.fault = none) {address n : Int}
    (hout : m.base + m.bytes.length < address + n) (hlong : Numeral.isSpellable n = false) :
    ¬(read address n).IsGranted m ∧
      ((read address n).perform m).1 = .error (.failure .longNumeral) := by
  have hnot : ¬(read address n).IsGranted m := fun h => by
    have hin := h.2.2.1
    dsimp only [Access.address, Access.count] at hin
    omega
  refine ⟨hnot, ?_⟩
  rw [perform_of_not_isGranted hfault hnot, refusal, Access.count, hlong]
  rfl

/-- Four bytes, of which so many are to be read that the failure does not tell where. -/
theorem read_of_unspellable_count :
    let m : Memory := ⟨[0, 0, 0, 0], 0, false, none⟩
    let a : Access := .read 0 (wordCount 16384)
    (¬a.IsGranted m ∧ (a.perform m).1 = .error (.failure .longNumeral)) ∧
      ¬∀ (m : Memory) (a : Access), m.fault = none →
        ((∃ cause, (a.perform m).1 = .error (.memoryAccess a.address cause)) ↔ ¬a.IsGranted m) := by
  intro m a
  have hfails : ¬a.IsGranted m ∧ (a.perform m).1 = .error (.failure .longNumeral) :=
    perform_of_unspellable rfl (by decide +kernel) (by decide +kernel)
  refine ⟨hfails, fun h => ?_⟩
  obtain ⟨cause, hcause⟩ := (h m a rfl).mpr hfails.1
  cases hfails.2.symm.trans hcause

end TypedMemory.Memory
