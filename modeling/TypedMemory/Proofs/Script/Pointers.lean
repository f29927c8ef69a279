import TypedMemory.Proofs.Codec.Validation
import TypedMemory.Proofs.Script.Eval

/-!
# Writing through chains of pointers

Reading never follows a pointer, writing always does. So a value can be written behind a chain
of pointers in two ways: all at once, by the layout that is the whole chain, or step by step,
reading one pointer through the one before it and writing through the last. The two leave the
same memory, and where one fails so does the other (`TypedMemory.Expr.writeStepwise_agrees`).

Both come down to where the chain leads, `TypedMemory.Codec.follow`, which is a matter of memory
as it is before: nothing is stored before the last slot of the chain is read, so it makes no
difference that the slots may overlap each other or lie where the value goes. What differs is the
order of the two things that can go wrong on the way. A value is checked first when it is written
all at once, and last when it is written step by step.
-/

namespace TypedMemory

open Effect

/-- Pointers of the given widths, each to the next one and the last to a layout. -/
def Layout.pointers : List AddressWidth → Layout → Layout
  | [], target => target
  | width :: rest, target => .pointer width (pointers rest target)

/-! ### All at once -/

namespace Codec

/-- **Where a chain of pointers leads** that begins at an address. The first slot that cannot be
read ends it. -/
def follow (options : Options) (m : Memory) : List AddressWidth → Nat → Except Error Nat
  | [], address => .ok address
  | width :: rest, address => do
    let next ← m.loadNumber options.byteOrder address width.bytes
    follow options m rest next

variable [Host] {options : Options}

/-- A chain is broken only by an access to memory that fails. -/
theorem isMemoryAccess_of_follow {m : Memory} {widths : List AddressWidth} {address : Nat}
    {e : Error} (h : follow options m widths address = .error e) : e.IsMemoryAccess := by
  induction widths generalizing address with
  | nil => cases h
  | cons width rest ih =>
    rcases or_of_bind_eq_error h with h | ⟨next, -, h⟩
    · have hfails : FailsOnly Error.IsMemoryAccess
          (Update.inspect fun m => m.loadNumber options.byteOrder address width.bytes) :=
        failsOnly_inspect width address
      exact hfails m e m (congrArg (·, m) h)
    · exact ih h

/-- A value is checked against what the chain leads to. -/
theorem check_pointers (widths : List AddressWidth) (target : Layout) (v : Value) :
    check options (.pointers widths target) v = check options target v := by
  induction widths with
  | nil => rfl
  | cons width rest ih => exact ih

/-- **A value written by a chain** goes where the chain leads in the memory before, and nowhere
if it is broken. -/
theorem store_pointers (widths : List AddressWidth) (target : Layout) (address : Nat) (v : Value)
    (m : Memory) :
    store options (.pointers widths target) address v m =
      match follow options m widths address with
      | .ok place => store options target place v m
      | .error e => (.error e, m) := by
  induction widths generalizing address with
  | nil => rfl
  | cons width rest ih =>
    rw [Layout.pointers, store, follow, bind_apply, Update.inspect]
    cases m.loadNumber options.byteOrder address width.bytes with
    | error e => rfl
    | ok next => exact ih next

/-- A value written by a chain is checked before the chain is followed. -/
theorem write_pointers (widths : List AddressWidth) (target : Layout) {at_ : Value} {address : Nat}
    (hat : at_.location = .ok address) (v : Value) (m : Memory) :
    write options (.pointers widths target) at_ v m =
      match check options target v, follow options m widths address with
      | .error e, _ => (.error e, m)
      | .ok _, .error e => (.error e, m)
      | .ok _, .ok place => store options target place v m := by
  rw [write, check_pointers]
  cases check options target v with
  | error e => rfl
  | ok u =>
    rw [Update.lift_ok_bind, hat, Update.lift_ok_bind, store_pointers]
    cases follow options m widths address <;> rfl

end Codec

/-! ### Step by step -/

namespace Expr

section StepByStep

variable [Host] (options : Options)

/-- So many readings, each through the pointer that the one before has given. -/
def readThrough : Nat → Value → Run Value
  | 0, p => pure p
  | count + 1, p => do
    let next ← readMethod options [p]
    readThrough count next

/-- The last pointer of a chain: the first one is read at an address, and each of the others
through the one before. -/
def reach (first : AddressWidth) (more : List AddressWidth) (target : Layout) (at_ : Value) :
    Run Value := do
  let chain := Layout.pointers (first :: more) target
  let p ← Run.inspect (fun m => Codec.readAtNotes options m chain at_)
    fun m => Codec.readAt options m chain at_
  readThrough options more.length p

/-- **Writing through a chain step by step**: its last pointer is reached, and the value written
through that. -/
def writeStepwise (first : AddressWidth) (more : List AddressWidth) (target : Layout)
    (at_ v : Value) : Run Value := do
  let p ← reach options first more target at_
  writeMethod options [p, v]

variable {options}

/-- Reading a pointer gives what it points to, and leaves no note. -/
theorem readMemory_pointer (width : AddressWidth) (inner : Layout) (location : Nat)
    (m : Machine) :
    readMemory options (.pointer width inner) location m =
      ((m.memory.loadNumber options.byteOrder location width.bytes).map (.pointer inner · none),
        m) := by
  have hnotes : Codec.readNotes options m.memory (.pointer width inner) location = [] := rfl
  rw [readMemory, Run.inspect, hnotes, List.append_nil, Codec.read]
  cases m.memory.loadNumber options.byteOrder location width.bytes <;> rfl

/-- Reading through pointers leads where the chain of them does. -/
theorem readThrough_eq (widths : List AddressWidth) (target : Layout) (location : Nat)
    (m : Machine) :
    readThrough options widths.length (.pointer (.pointers widths target) location none) m =
      ((Codec.follow options m.memory widths location).map (.pointer target · none), m) := by
  induction widths generalizing location with
  | nil => rfl
  | cons width rest ih =>
    rw [List.length_cons, readThrough, bind_apply, readMethod, Layout.pointers,
      readMemory_pointer, Codec.follow]
    cases m.memory.loadNumber options.byteOrder location width.bytes with
    | error e => rfl
    | ok next => exact ih next

/-- **The last pointer of a chain** points where the chain leads. -/
theorem reach_eq (first : AddressWidth) (more : List AddressWidth) (target : Layout)
    {at_ : Value} {address : Nat} (hat : at_.location = .ok address) (m : Machine) :
    reach options first more target at_ m =
      ((Codec.follow options m.memory (first :: more) address).map (.pointer target · none),
        m) := by
  have hfirst : Run.inspect
      (fun m => Codec.readAtNotes options m (.pointers (first :: more) target) at_)
      (fun m => Codec.readAt options m (.pointers (first :: more) target) at_) m =
        readMemory options (.pointer first (.pointers more target)) address m := by
    simp only [Run.inspect, Codec.readAtNotes, Codec.readAt, hat]
    rfl
  rw [reach, bind_apply, hfirst, readMemory_pointer, Codec.follow]
  cases m.memory.loadNumber options.byteOrder address first.bytes with
  | error e => rfl
  | ok next => exact readThrough_eq more target next m

/-- **Two ways of writing through pointers agree.** Written by a chain of pointers all at once, or
through the last of them when they are read one through the other, a value leaves the same memory.
The failures are the same too, except that a broken chain hides a value that does not pass the
check step by step, and is hidden by it all at once. In either case not a byte is changed. -/
theorem writeStepwise_agrees (options : Options) (first : AddressWidth)
    (more : List AddressWidth) (target : Layout) {at_ : Value} {address : Nat}
    (hat : at_.location = .ok address) (v : Value) (m : Machine) :
    let direct := Codec.write options (.pointers (first :: more) target) at_ v m.memory
    let stepwise := writeStepwise options first more target at_ v m
    let reached := Codec.follow options m.memory (first :: more) address
    let checked := Codec.check options target v
    direct.2 = stepwise.2.memory ∧
    (direct.1 = stepwise.1.map (fun _ => ()) ∨ ∃ e e', reached = .error e ∧ e.IsMemoryAccess ∧
      checked = .error e' ∧ stepwise.1 = .error e ∧ direct.1 = .error e') ∧
    ((∃ e, reached = .error e) ∨ (∃ e, checked = .error e) → direct.2 = m.memory) := by
  intro direct stepwise reached checked
  have hdirect : direct = _ := Codec.write_pointers (first :: more) target hat v m.memory
  have hreach : reach options first more target at_ m = _ := reach_eq first more target hat m
  cases hfollow : Codec.follow options m.memory (first :: more) address with
  | error e =>
    rw [hfollow] at hdirect hreach
    have hstepwise : stepwise = (.error e, m) := bind_of_error hreach
    have he : e.IsMemoryAccess := Codec.isMemoryAccess_of_follow hfollow
    cases hcheck : Codec.check options target v with
    | error e' =>
      rw [hcheck] at hdirect
      rw [hdirect, hstepwise]
      exact ⟨rfl, .inr ⟨e, e', hfollow, he, hcheck, rfl, rfl⟩, fun _ => rfl⟩
    | ok u =>
      rw [hcheck] at hdirect
      rw [hdirect, hstepwise]
      exact ⟨rfl, .inl rfl, fun _ => rfl⟩
  | ok place =>
    rw [hfollow] at hdirect hreach
    have hstepwise : stepwise = writeMemory options target place v m := bind_of_ok hreach
    obtain ⟨hresult, hmemory⟩ : (writeMemory options target place v m).1 = _ ∧ _ :=
      writeMemory_outcome target place v m
    -- Where the chain leads there is nothing more to follow: the rest is a plain write.
    have hplain : Codec.write options target (.address place) v m.memory = _ :=
      Codec.write_pointers [] target rfl v m.memory
    have hlast : direct = Codec.write options target (.address place) v m.memory :=
      hdirect.trans hplain.symm
    rw [hstepwise, hresult, hmemory, hlast]
    refine ⟨rfl, .inl ?_, ?_⟩
    · cases (Codec.write options target (.address place) v m.memory).1 <;> rfl
    · rintro (⟨e, hbroken⟩ | ⟨e, hrefused⟩)
      · cases hfollow.symm.trans hbroken
      · have hcheck : Codec.check options target v = .error e := hrefused
        rw [hcheck] at hplain
        exact congrArg Prod.snd hplain

end StepByStep

/-- A chain whose second slot goes over the end of memory, and no value at all for what should be
behind it. -/
theorem writeStepwise_agrees_broken :
    let m : Machine := ⟨{ bytes := [2, 0, 0, 0, 0, 0, 0, 0] }, []⟩
    let target : Layout := .integer .uint8
    let direct := Codec.write {} (.pointers [.narrow, .wide] target) (.int 0) .unit m.memory
    let stepwise := writeStepwise {} .narrow [.wide] target (.int 0) .unit m
    Value.location (.int 0) = .ok 0 ∧ direct.2 = stepwise.2.memory ∧
    (direct.1 = stepwise.1.map (fun _ => ()) ∨ ∃ e e',
      Codec.follow {} m.memory [.narrow, .wide] 0 = .error e ∧ e.IsMemoryAccess ∧
      Codec.check {} target .unit = .error e' ∧ stepwise.1 = .error e ∧ direct.1 = .error e') ∧
    direct.2 = m.memory := by
  intro m target direct stepwise
  obtain ⟨hmemory, hresult, hstill⟩ :=
    writeStepwise_agrees {} .narrow [.wide] target (show Value.location (.int 0) = .ok 0 from rfl)
      .unit m
  exact ⟨rfl, hmemory, hresult, hstill (.inr ⟨_, rfl⟩)⟩

end Expr

end TypedMemory
