import TypedMemory.Layout.Basic

/-!
# Equality

**Equality of values** is numeric across truth values, whole numbers and floating point,
where whole numbers and floating point are compared exactly. A record does not depend on
the order of its entries. An address equals a whole number of its magnitude, so of
either sign, and an address with a layout also equals that layout. Two layouts are equal
when they are built alike.

What is **not a number** equals nothing. Yet the parts of an array, a record or a layout
are compared by a relation that is a little wider: there whatever does not equal itself
still counts as the same as itself, by its tag.

Where nothing but layouts stands in the place of layouts, two are equal only when they
are the same (`Layout.equal_iff_eq`).
-/

namespace TypedMemory

/-! ### Numbers -/

/-- A number among the values, with truth values as zero and one. -/
inductive Value.Number
  | whole (n : Int)
  | floating (x : Binary64)

/-- Exact equality of numbers. -/
def Value.Number.same : Number → Number → Bool
  | whole n, whole k => n == k
  | whole n, floating x => x.equalsInt n
  | floating x, whole n => x.equalsInt n
  | floating x, floating y => x.numericallyEqual y

/-- The number that a value is, if it is one. -/
def Value.number? : Value → Option Value.Number
  | .bool b => some (.whole (if b then 1 else 0))
  | .int n => some (.whole n)
  | .float x _ => some (.floating x)
  | _ => none

/-! ### The same thing -/

/-- Whether two values are one and the same by their tags. -/
def Value.sameTag (v w : Value) : Bool :=
  match v.tag?, w.tag? with
  | some tag, some tag' => tag == tag'
  | _, _ => false

/-- Whether the same tagged value was put in the place of two layouts. -/
def Layout.sameTag : Layout → Layout → Bool
  | .foreign v, .foreign w => v.sameTag w
  | _, _ => false

/-! ### What a layout is compared with -/

mutual

/-- The layout that a value stands for beside a layout: an address stands for the layout
it carries. -/
def Value.standsFor? : Value → Option Layout
  | .type l => l.standsFor?
  | .pointer target _ _ => target.standsFor?
  | _ => none

/-- The layout itself, or the one that a value in its place stands for. -/
def Layout.standsFor? : Layout → Option Layout
  | .foreign v => v.standsFor?
  | l => some l

end

/-- Whether two layouts that hold no other layouts are equal. -/
def Layout.atomEqual : Layout → Layout → Bool
  | .integer kind, .integer kind' => kind == kind'
  | .float kind, .float kind' => kind == kind'
  | .rawAddress width, .rawAddress width' => width == width'
  | .text length, .text length' => length == length'
  | .wideText length, .wideText length' => length == length'
  | _, _ => false

/-- Whether two values that hold no other values are equal. -/
def Value.atomEqual (a b : Value) : Bool :=
  match a.number?, b.number? with
  | some x, some y => x.same y
  | _, _ =>
    match a, b with
    | .unit, .unit => true
    | .text s, .text t => s == t
    | .bytes x, .bytes y => x == y
    | .memory, .memory => true
    | .address x, .address y => x == y
    | .address x, .int n => x == n.natAbs
    | .int n, .address x => x == n.natAbs
    | .address x, .pointer _ y _ => x == y
    | .int n, .pointer _ x _ => x == n.natAbs
    | _, _ => false

/-! ### Equality -/

mutual

/-- **Equality of values.** -/
def Value.equal : Value → Value → Bool
  | .array items, w =>
    match w with
    | .array items' => Value.itemsEqual items items'
    | _ => false
  | .record entries, w =>
    match w with
    | .record entries' =>
      entries.length == entries'.length && Value.entriesEqual entries entries'
    | _ => false
  | .pointer target x _, w =>
    match w with
    | .pointer target' y _ => x == y && target.equal target'
    | .address y => x == y
    | .int n => x == n.natAbs
    | .type l => target.equal l
    | _ => false
  | .type l, w =>
    match w with
    | .type l' => l.equal l'
    | .pointer target _ _ => l.equal target
    | _ => false
  | v, w => v.atomEqual w
termination_by structural v => v

/-- Whether two rows of values are equal one by one. -/
def Value.itemsEqual : List Value → List Value → Bool
  | [], [] => true
  | v :: vs, w :: ws => (v.sameTag w || v.equal w) && Value.itemsEqual vs ws
  | _, _ => false
termination_by structural vs => vs

/-- Whether each entry is among the others with an equal value. -/
def Value.entriesEqual : List (Entry Value) → List (Entry Value) → Bool
  | [], _ => true
  | e :: rest, others =>
    (match Value.lookup? others e.name with
      | some v => e.value.sameTag v || e.value.equal v
      | none => false) && Value.entriesEqual rest others
termination_by structural entries => entries

/-- **Equality of layouts**: they are built alike, or what was put in the place of one
equals the other. -/
def Layout.equal : Layout → Layout → Bool
  | .foreign v, l => v.equal l.toValue
  | .pointer width inner, l =>
    match l.standsFor? with
    | some (.pointer width' inner') =>
      width == width' && (inner.sameTag inner' || inner.equal inner')
    | _ => false
  | .struct fields, l =>
    match l.standsFor? with
    | some (.struct fields') => Layout.fieldsEqual fields fields'
    | _ => false
  | .collection element count, l =>
    match l.standsFor? with
    | some (.collection element' count') =>
      count == count' && (element.sameTag element' || element.equal element')
    | _ => false
  | l, l' =>
    match l'.standsFor? with
    | some l' => l.atomEqual l'
    | none => false
termination_by structural l => l

/-- Whether two rows of fields are equal one by one. -/
def Layout.fieldsEqual : List (Field Layout) → List (Field Layout) → Bool
  | [], [] => true
  | f :: fs, g :: gs =>
    f.offset == g.offset && f.name == g.name && (f.type.sameTag g.type || f.type.equal g.type) &&
      Layout.fieldsEqual fs gs
  | _, _ => false
termination_by structural fields => fields

end

namespace Layout

/-! ### Genuine layouts -/

theorem sameTag_eq_false {l : Layout} (h : l.isGenuine = true) (l' : Layout) :
    l.sameTag l' = false := by
  cases l <;> simp_all [sameTag, isGenuine]

mutual

theorem eq_of_equal {a b : Layout} (ha : a.isGenuine = true) (hb : b.isGenuine = true)
    (h : a.equal b = true) : a = b := by
  cases a <;> cases b <;>
    simp_all [equal, isGenuine, standsFor?, atomEqual, sameTag_eq_false]
  case pointer.pointer w l w' l' => exact eq_of_equal ha hb h.2
  case struct.struct fs gs => exact eq_of_fieldsEqual ha hb h
  case collection.collection l n l' n' => exact eq_of_equal ha hb h.2

theorem eq_of_fieldsEqual {fs gs : List (Field Layout)} (hf : isGenuine.fieldsGenuine fs = true)
    (hg : isGenuine.fieldsGenuine gs = true) (h : fieldsEqual fs gs = true) : fs = gs := by
  match fs, gs with
  | [], [] => rfl
  | ⟨o, n, l⟩ :: fs, ⟨o', n', l'⟩ :: gs =>
    simp only [isGenuine.fieldsGenuine, Bool.and_eq_true] at hf hg
    simp only [fieldsEqual, sameTag_eq_false hf.1, Bool.false_or, Bool.and_eq_true,
      beq_iff_eq] at h
    obtain ⟨⟨⟨rfl, rfl⟩, hl⟩, hs⟩ := h
    rw [eq_of_equal hf.1 hg.1 hl, eq_of_fieldsEqual hf.2 hg.2 hs]
  | [], _ :: _ => simp [fieldsEqual] at h
  | _ :: _, [] => simp [fieldsEqual] at h

end

mutual

theorem equal_self {a : Layout} (h : a.isGenuine = true) : a.equal a = true := by
  cases a <;> simp_all [equal, isGenuine, standsFor?, atomEqual]
  case pointer w l => exact Or.inr (equal_self h)
  case struct fs => exact fieldsEqual_self h
  case collection l n => exact Or.inr (equal_self h)

theorem fieldsEqual_self {fs : List (Field Layout)} (h : isGenuine.fieldsGenuine fs = true) :
    fieldsEqual fs fs = true := by
  match fs with
  | [] => rfl
  | ⟨o, n, l⟩ :: fs =>
    simp only [isGenuine.fieldsGenuine, Bool.and_eq_true] at h
    simp [fieldsEqual, equal_self h.1, fieldsEqual_self h.2]

end

/-- Genuine layouts are equal only when they are the same. -/
theorem equal_iff_eq {a b : Layout} (ha : a.isGenuine = true) (hb : b.isGenuine = true) :
    a.equal b = true ↔ a = b :=
  ⟨eq_of_equal ha hb, fun h => h ▸ equal_self ha⟩

end Layout

end TypedMemory
