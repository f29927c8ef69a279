import TypedMemory.Proofs.Codec.Footprint
import TypedMemory.Proofs.Script.Placement

/-!
# Every layout a script makes is well laid out

The size of a struct is where its **last** field ends. That all of its bytes lie before this
end is no part of what a struct is; it holds because of how scripts come by structs: from a
declaration, which places fields one behind another, or from the scope, where it is assumed.
So it is an invariant of whole runs (`TypedMemory.Engine.run_wellLaidOut`), and what it is
good for is that reading and writing a layout without pointers stays between the address and
the size behind it (`TypedMemory.Expr.staysInside`).

The way from expressions to runs asks nothing of the condition but that it concerns structs
and that every form of statements keeps it.
-/

namespace TypedMemory

open Effect

variable {p : Layout → Bool}

/-! ### Runs -/

/-- A condition holds of all parts of what a statement gives, and of the scope it leaves. -/
def EveryPartOfResult (p : Layout → Bool) (r : Value × Scope) : Prop :=
  r.1.everyPart p = true ∧ r.2.EveryPart p

/-- **A form of statements keeps a condition** if what it gives has it wherever the scope has it,
for pieces as a script can have them. -/
def CustomSyntax.Keeps (p : Layout → Bool) (c : CustomSyntax) : Prop :=
  ∀ options s pieces, s.EveryPart p → (∀ q ∈ pieces, q.IsNatural) →
    Gives (EveryPartOfResult p) (c.perform options s pieces)

namespace Engine

variable [Host] {engine : Engine}

theorem gives_execute (hp : Layout.ConcernsStructs p) (hkeeps : ∀ c ∈ engine.syntaxes, c.Keeps p)
    {s : Scope} (hs : s.EveryPart p) {statement : Statement} (hstatement : statement.IsNatural) :
    Gives (EveryPartOfResult p) (engine.execute s statement) := by
  cases statement with
  | binding name value =>
    refine (Expr.gives_eval hp hs value).bind fun v hv => Run.gives_after fun _ => ?_
    refine (Run.gives_lift fun s' hs' => hs.withVariable hp hv hs').bind fun s' hs' => ?_
    exact gives_pure ⟨rfl, hs'⟩
  | expression value =>
    exact (Expr.gives_eval hp hs value).bind fun v hv => gives_pure ⟨hv, hs⟩
  | custom keyword pieces =>
    rw [execute]
    split
    case h_1 c hc => exact hkeeps c (List.mem_of_find?_eq_some hc) _ _ _ hs hstatement
    case h_2 => exact gives_pure ⟨rfl, hs⟩

/-- Statements one after another keep what each of them keeps. -/
theorem gives_executeAll {statements : List Statement}
    (hexecute : ∀ st ∈ statements, ∀ s : Scope, s.EveryPart p →
      Gives (EveryPartOfResult p) (engine.execute s st))
    {v : Value} (hv : v.everyPart p = true) {s : Scope} (hs : s.EveryPart p) :
    Gives (EveryPartOfResult p) (engine.executeAll v s statements) := by
  induction statements generalizing v s with
  | nil => exact gives_pure ⟨hv, hs⟩
  | cons st rest ih =>
    rw [List.forall_mem_cons] at hexecute
    exact (hexecute.1 s hs).bind fun r hr => ih hexecute.2 hr.1 hr.2

/-- A run keeps what each statement of the script keeps. -/
theorem gives_run_of_execute {t : Text}
    (hexecute : ∀ statements, engine.parse t = .ok statements → ∀ st ∈ statements,
      ∀ s : Scope, s.EveryPart p → Gives (EveryPartOfResult p) (engine.execute s st))
    {s : Scope} (hs : s.EveryPart p) : Gives (EveryPartOfResult p) (engine.run t s) :=
  (Run.gives_lift fun statements h => hexecute statements h).bind
    fun _ hstatements => Run.gives_after fun _ => gives_executeAll hstatements rfl hs

/-- **Runs keep a condition** on parts that concerns structs, if every form of statements
does. -/
theorem gives_run (hp : Layout.ConcernsStructs p) (hkeeps : ∀ c ∈ engine.syntaxes, c.Keeps p)
    (t : Text) {s : Scope} (hs : s.EveryPart p) :
    Gives (EveryPartOfResult p) (engine.run t s) :=
  gives_run_of_execute (fun _ hparse st hst _ hs =>
    gives_execute hp hkeeps hs (Statement.isNatural_of_parse hparse st hst)) hs

end Engine

/-! ### Declarations keep the layout well laid out -/

namespace Layout

theorem fieldsSpaced_tagged (fields : List (Field Layout)) (n : Nat) :
    fieldsSpaced (fieldsTagged fields n).1 = fieldsSpaced fields := by
  induction fields generalizing n with
  | nil => rfl
  | cons f rest ih =>
    have hrest := ih (f.type.tagged n).2
    cases rest with
    | nil => rfl
    | cons g rest =>
      rw [fieldsTagged_cons] at hrest
      rw [fieldsTagged_cons, fieldsTagged_cons, fieldsSpaced, hrest, size_tagged, fieldsSpaced]

/-- That fields are spaced concerns structs, and is told from offsets and sizes. -/
theorem concernsStructs_spaced : ConcernsStructs spaced where
  other l hstruct _ := by
    cases l with
    | struct fields => cases hstruct
    | _ => rfl
  tagged l n h := by
    cases l with
    | struct fields => exact (fieldsSpaced_tagged fields n).trans h
    | _ => rfl

end Layout

/-- A declaration keeps a condition that the struct has which it makes. -/
theorem Native.gives_declare [Host] (hp : Layout.ConcernsStructs p) {options : Options} {s : Scope}
    (hs : s.EveryPart p) {pieces : List Piece}
    (hcompile : ∀ {block : Text} {list : List Item}, items pieces = .ok (block, list) →
      Gives (·.everyPart p = true)
        (compile block (fun e => e.eval options s) options.policy list)) :
    Gives (EveryPartOfResult p) (declare options s pieces) := by
  refine (Run.gives_lift fun r hr => hr).bind fun r hr => ?_
  refine (hcompile hr).bind fun l hl => Run.gives_after fun size =>
    Run.gives_after fun _ => Run.gives_after fun _ => gives_pure ⟨rfl, ?_⟩
  exact hs.withConstant hp (Value.everyPart_type.mpr hl) r.1

/-- **Declarations keep a condition** that the structs have which they make of layouts that have
it. -/
theorem Native.keeps_of_compile [Host] (hp : Layout.ConcernsStructs p)
    (hcompile : ∀ {block : Text} {evaluate : Expr → Run Value} {items : List Item},
      (∀ e, Gives (·.everyPart p = true) (evaluate e)) → PaddingsNatural items →
      ∀ policy, Gives (·.everyPart p = true) (compile block evaluate policy items)) :
    Native.customSyntax.Keeps p := fun _ _ _ hs hpieces =>
  gives_declare hp hs fun hitems =>
    hcompile (Expr.gives_eval hp hs) (paddingsNatural_of_items hpieces hitems) _

theorem Native.keeps_spaced [Host] : Native.customSyntax.Keeps Layout.spaced :=
  keeps_of_compile Layout.concernsStructs_spaced fun heval hitems => gives_compile heval hitems

/-! ### Staying inside of a layout -/

namespace Expr

/-- **Reading and writing stay inside** of the bytes from an address on that the size of the
layout counts. Reading changes nothing, and gives the same in memories that give the same to
reads inside. Writing leaves all bytes outside, and ends in the same way in memories that
answer writes inside in the same way. -/
structure StaysInside [Host] (options : Options) (l : Layout) : Prop where
  read : ∀ {place : Value} {a : Nat}, place.expectLocation "read address" = .ok a →
    ∀ m : Machine, (callMethod options .memory "read" [.type l, place] m).2.memory = m.memory ∧
      ∀ m' : Machine, (∀ s : Slot, s.length ≠ 0 → s.LiesWithin ⟨a, l.size⟩ →
          m.memory.ReadsAlike m'.memory s) →
        (callMethod options .memory "read" [.type l, place] m').1 =
          (callMethod options .memory "read" [.type l, place] m).1
  write : ∀ {place : Value} {a : Nat}, place.expectLocation "write address" = .ok a →
    ∀ (v : Value) (m : Machine),
      (∀ x, ¬(Slot.mk a l.size).Contains x →
        (callMethod options .memory "write" [.type l, place, v] m).2.memory.byteAt? x =
          m.memory.byteAt? x) ∧
      ∀ m' : Machine, (∀ s : Slot, s.length ≠ 0 → s.LiesWithin ⟨a, l.size⟩ →
          m.memory.WritesAlike m'.memory s) →
        (callMethod options .memory "write" [.type l, place, v] m').1 =
          (callMethod options .memory "write" [.type l, place, v] m).1

theorem callMethod_read [Host] {options : Options} {l : Layout} {place : Value} {a : Nat}
    (h : place.expectLocation "read address" = .ok a) (m : Machine) :
    (callMethod options .memory "read" [.type l, place] m).1 =
        Codec.read options m.memory l a ∧
      (callMethod options .memory "read" [.type l, place] m).2.memory = m.memory := by
  have hcall : callMethod options .memory "read" [.type l, place] =
      (Run.lift (.ok a) >>= fun location => readMemory options l location) := by
    rw [← h]
    rfl
  rw [hcall, bind_of_ok (show Run.lift (.ok a) m = (.ok a, m) from rfl)]
  exact ⟨rfl, rfl⟩

theorem callMethod_write [Host] {options : Options} {l : Layout} {place : Value} {a : Nat}
    (h : place.expectLocation "write address" = .ok a) (v : Value) (m : Machine) :
    (callMethod options .memory "write" [.type l, place, v] m).1 =
        (Codec.write options l (.address a) v m.memory).1.map (fun _ => Value.unit) ∧
      (callMethod options .memory "write" [.type l, place, v] m).2.memory =
        (Codec.write options l (.address a) v m.memory).2 := by
  have hcall : callMethod options .memory "write" [.type l, place, v] =
      (Run.lift (.ok a) >>= fun location => writeMemory options l location v) := by
    rw [← h]
    rfl
  rw [hcall, bind_of_ok (show Run.lift (.ok a) m = (.ok a, m) from rfl)]
  exact writeMemory_outcome l a v m

/-- **A well laid out layout without pointers is touched only where it lies.** -/
theorem staysInside [Host] {options : Options} {l : Layout} (hl : l.isWellLaidOut = true)
    (hp : l.isPointerFree = true) : StaysInside options l where
  read := by
    intro place a hplace m
    refine ⟨(callMethod_read hplace m).2, fun m' halike => ?_⟩
    rw [(callMethod_read hplace m).1, (callMethod_read hplace m').1]
    exact Codec.read_congr fun s hs hlen => halike s hlen (Layout.slots_within hl hs)
  write := by
    intro place a hplace v m
    have hat : (Value.address a).location = .ok a := rfl
    have hkeeps : Codec.KeepsTo _ (Codec.write options l (.address a) v) :=
      Codec.write_keepsTo hp hat v
    refine ⟨fun x hx => ?_, fun m' halike => ?_⟩
    · rw [(callMethod_write hplace v m).2]
      exact hkeeps.outside m.memory x fun s hs hcontains =>
        hx (.of_liesWithin (Layout.slots_within hl hs) hcontains)
    · rw [(callMethod_write hplace v m).1, (callMethod_write hplace v m').1]
      rw [hkeeps.outcome m.memory m'.memory fun s hs hlen =>
        halike s hlen (Layout.slots_within hl hs)]

end Expr

/-- **Runs keep everything well laid out**: from a scope of values with well laid out layouts
alone, a script gives such a value and leaves such a scope, whatever the options, the memory
and the script. Such a layout, if it has no pointers, is read and written only between an
address and its size behind it. -/
theorem Engine.run_wellLaidOut [Host] (options : Options) {s : Scope}
    (hs : s.EveryPart Layout.spaced) (t : Text) (m : Machine) :
    (∀ v s' m', (Engine.standard options).run t s m = (.ok (v, s'), m') →
      v.everyPart Layout.spaced = true ∧ s'.EveryPart Layout.spaced) ∧
    ∀ l : Layout, l.isWellLaidOut = true → l.isPointerFree = true →
      Expr.StaysInside options l := by
  refine ⟨fun v s' m' hrun => ?_, fun l => Expr.staysInside⟩
  have hkeeps : ∀ c ∈ (Engine.standard options).syntaxes, c.Keeps Layout.spaced := by
    intro c hc
    rw [List.mem_singleton.mp hc]
    exact Native.keeps_spaced
  exact Engine.gives_run Layout.concernsStructs_spaced hkeeps t hs m (v, s') m' hrun

/-- A declaration with a padding, and a collection of what it declares. -/
theorem Engine.run_wellLaidOut_declaration :
    let script : Text := "native P \x7b a: UInt16, ^ 2, b: Text(3) \x7d; Collection(P, 2)"
    let layout := Layout.struct [⟨0, "a", .integer .uint16⟩, ⟨4, "b", .text 3⟩]
    (∃ v s' m', (Engine.standard {}).run script .empty ⟨{ bytes := [] }, []⟩ = (.ok (v, s'), m') ∧
      v.everyPart Layout.spaced = true ∧ s'.EveryPart Layout.spaced) ∧
    Expr.StaysInside {} layout := by
  intro script layout
  have hempty : Scope.empty.EveryPart Layout.spaced := nofun
  have hkept := Engine.run_wellLaidOut {} hempty script ⟨{ bytes := [] }, []⟩
  refine ⟨?_, hkept.2 layout rfl rfl⟩
  have hruns : ((Engine.standard {}).run script .empty ⟨{ bytes := [] }, []⟩).1.toOption.isSome =
      true := by decide +kernel
  rcases hrun : (Engine.standard {}).run script .empty ⟨{ bytes := [] }, []⟩ with ⟨r, m'⟩
  rw [hrun] at hruns
  cases r with
  | error e => cases hruns
  | ok r => exact ⟨r.1, r.2, m', rfl, hkept.1 r.1 r.2 m' hrun⟩

end TypedMemory
