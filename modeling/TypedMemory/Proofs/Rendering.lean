import TypedMemory.Proofs.Script.Describing

/-!
# Rendered layouts are told apart

How a layout is rendered says all of it, as long as the fields of its structs have identifiers for
names (`TypedMemory.Layout.render_append_inj`). The punctuation is shared: a colon stands behind
offsets and names alike, and a comma between fields as well as in front of a count. That nothing can
be read in two ways rests on three things.

* Every rendering begins with an **opening**, which tells what kind of layout it is, and no opening
  is how another one begins (`TypedMemory.Layout.Opening.eq_of_letters`).
* Digits and names are followed by what is neither.
* So a rendering ends by itself: **in front of anything**, two renderings that begin the same text
  are of the same layout. With the text behind them free, this goes through by induction.
-/

namespace TypedMemory

/-! ### Where numbers and names end -/

/-- Of what belongs to a class, with something behind that does not, the end can be told. -/
theorem Token.append_inj_of_forall {p : CodePoint → Bool} {u v s t : Text}
    (hu : ∀ c ∈ u, p c = true) (hv : ∀ c ∈ v, p c = true) (hs : ∀ c ∈ s.head?, p c = false)
    (ht : ∀ c ∈ t.head?, p c = false) (h : u ++ s = v ++ t) : u = v ∧ s = t := by
  refine List.append_inj h ?_
  rw [← runLength_of_forall hu hs, h, runLength_of_forall hv ht]

/-- A number in decimal, with something behind that is no digit. -/
theorem Numeral.decimal_append_inj {n k : Nat} {s t : Text}
    (hs : ∀ c ∈ s.head?, c.isDigit = false) (ht : ∀ c ∈ t.head?, c.isDigit = false)
    (h : decimal n ++ s = decimal k ++ t) : n = k ∧ s = t := by
  obtain ⟨hdigits, hbehind⟩ := Token.append_inj_of_forall (fun _ => isDigit_of_mem_decimal)
    (fun _ => isDigit_of_mem_decimal) hs ht h
  exact ⟨by rw [← value_decimal n, hdigits, value_decimal], hbehind⟩

/-- What a name looks like, be it a word with a meaning of its own. -/
def Token.isIdentifier : Text → Bool
  | [] => false
  | c :: rest => isNameStart c && rest.all isNamePart

theorem Token.isNamePart_of_isIdentifier {t : Text} (h : isIdentifier t = true) :
    ∀ c ∈ t, isNamePart c = true := by
  cases t with
  | nil => exact nofun
  | cons c rest =>
    rw [isIdentifier, Bool.and_eq_true, List.all_eq_true] at h
    exact List.forall_mem_cons.mpr ⟨by rw [isNamePart, h.1, Bool.true_or], h.2⟩

namespace Layout

open Numeral (decimal decimal_append_inj)

/-! ### Openings -/

/-- What kind of layout a rendering is of, so far as its first letters tell. -/
inductive Opening
  | integer (kind : IntegerKind)
  | float (kind : FloatKind)
  | rawAddress (width : AddressWidth)
  | pointer (width : AddressWidth)
  | text
  | wideText
  | struct
  | collection
  deriving DecidableEq

namespace Opening

/-- The first letters of a rendering. -/
def letters : Opening → Text
  | integer kind => kind.name
  | float kind => kind.name
  | rawAddress width => "Address" ++ width.bits
  | pointer width => "Pointer" ++ width.bits ++ "("
  | text => "Text("
  | wideText => "WideText("
  | struct => "Struct "
  | collection => "Collection("

/-- Every opening. -/
def all : List Opening :=
  IntegerKind.all.map integer ++ [float .fp32, float .fp64, rawAddress .narrow, rawAddress .wide,
    pointer .narrow, pointer .wide, text, wideText, struct, collection]

theorem mem_all (o : Opening) : o ∈ all := by
  cases o with
  | integer kind => cases kind <;> decide
  | float kind => cases kind <;> decide
  | rawAddress width | pointer width => cases width <;> decide
  | _ => decide

/-- No opening is how another one begins. -/
theorem eq_of_letters {o o' : Opening} (h : o.letters <+: o'.letters) : o = o' := by
  have hall : ∀ o ∈ all, ∀ o' ∈ all, o.letters <+: o'.letters → o = o' := by decide +kernel
  exact hall o o.mem_all o' o'.mem_all h

/-- The opening can be told from what begins with it. -/
theorem append_inj {o o' : Opening} {s t : Text} (h : o.letters ++ s = o'.letters ++ t) :
    o = o' ∧ s = t := by
  have heq : o = o' := by
    rcases List.prefix_or_prefix_of_prefix ⟨s, h⟩ ⟨t, rfl⟩ with hprefix | hprefix
    · exact eq_of_letters hprefix
    · exact (eq_of_letters hprefix).symm
  subst heq
  exact ⟨rfl, List.append_cancel_left h⟩

end Opening

/-- What the rendering of a layout begins with. -/
def opening? : Layout → Option Opening
  | integer kind => some (.integer kind)
  | float kind => some (.float kind)
  | rawAddress width => some (.rawAddress width)
  | pointer width _ => some (.pointer width)
  | text _ => some .text
  | wideText _ => some .wideText
  | struct _ => some .struct
  | collection _ _ => some .collection
  | foreign _ => none

/-- The rendering of a field. -/
def member (f : Field Layout) : Text :=
  decimal f.offset ++ (": " ++ (f.name ++ (": " ++ f.type.render)))

/-- The rendering of the fields behind a field, up to the closing brace. -/
def membersBehind : List (Field Layout) → Text
  | [] => " \x7d"
  | f :: rest => ", " ++ (member f ++ membersBehind rest)

/-- What a rendering has behind its opening. -/
def inside : Layout → Text
  | pointer _ inner => inner.render ++ ")"
  | text length => decimal length ++ ")"
  | wideText length => decimal length ++ ")"
  | struct [] => "\x7b\x7d"
  | struct (f :: rest) => "\x7b " ++ (member f ++ membersBehind rest)
  | collection element count => element.render ++ (", " ++ (decimal count ++ ")"))
  | _ => []

theorem join_members (f : Field Layout) (rest : List (Field Layout)) :
    Text.join ", " (render.members (f :: rest)) ++ " \x7d" = member f ++ membersBehind rest := by
  induction rest generalizing f with
  | nil => simp [Text.join, render.members, member, membersBehind]
  | cons g rest ih =>
    have hjoin : Text.join ", " (render.members (f :: g :: rest)) =
        member f ++ (", " ++ Text.join ", " (render.members (g :: rest))) := by
      simp [Text.join, render.members, member]
    rw [hjoin, membersBehind, ← ih g]
    simp

/-- **A rendering is its opening and what is inside.** -/
theorem render_eq {l : Layout} {o : Opening} (h : l.opening? = some o) :
    l.render = o.letters ++ l.inside := by
  cases l with
  | struct fields =>
    cases h
    cases fields with
    | nil => rfl
    | cons f rest =>
      rw [inside, ← join_members]
      rfl
  | foreign v => cases h
  | _ =>
    cases h
    simp [render, kindName, inside, Opening.letters]

/-! ### Reading a rendering back -/

/-- The condition on a part that it is a layout, and that its fields, if it is a struct, have
identifiers for names. -/
def isReadable : Layout → Bool
  | struct fields => fields.all fun f => Token.isIdentifier f.name
  | foreign _ => false
  | _ => true

theorem exists_opening {l : Layout} (h : l.everyPart isReadable = true) :
    ∃ o, l.opening? = some o := by
  cases l with
  | foreign v => cases (everyPart_foreign.mp h).1
  | _ => exact ⟨_, rfl⟩

theorem isGenuine_of_readable {l : Layout} (h : l.everyPart isReadable = true) :
    l.isGenuine = true := by
  induction l with
  | pointer width inner ih => exact ih (everyPart_pointer.mp h).2
  | struct fields ih =>
    exact fieldsGenuine_iff.mpr fun f hf => ih f hf ((everyPart_struct.mp h).2 f hf)
  | collection element count ih => exact ih (everyPart_collection.mp h).2
  | foreign v => cases (everyPart_foreign.mp h).1
  | _ => rfl

/-- Of what begins with the rendering of the layout, the layout can be told, and what is behind. -/
def IsReadBack (a : Layout) : Prop :=
  ∀ {b : Layout} {s t : Text}, b.everyPart isReadable = true →
    a.render ++ s = b.render ++ t → a = b ∧ s = t

theorem opening_inside_eq {a b : Layout} {s t : Text} (ha : a.everyPart isReadable = true)
    (hb : b.everyPart isReadable = true) (h : a.render ++ s = b.render ++ t) :
    a.opening? = b.opening? ∧ a.inside ++ s = b.inside ++ t := by
  obtain ⟨o, ho⟩ := exists_opening ha
  obtain ⟨o', ho'⟩ := exists_opening hb
  rw [render_eq ho, render_eq ho', List.append_assoc, List.append_assoc] at h
  obtain ⟨rfl, hinside⟩ := Opening.append_inj h
  exact ⟨ho.trans ho'.symm, hinside⟩

/-- A field can be told from what begins with its rendering, if its type can. -/
theorem member_append_inj {f g : Field Layout} {s t : Text} (hread : f.type.IsReadBack)
    (hf : Token.isIdentifier f.name = true) (hg : Token.isIdentifier g.name = true)
    (hg' : g.type.everyPart isReadable = true) (h : member f ++ s = member g ++ t) :
    f = g ∧ s = t := by
  simp only [member, List.append_assoc] at h
  obtain ⟨hoffset, h⟩ := decimal_append_inj (by rintro _ ⟨⟩; rfl) (by rintro _ ⟨⟩; rfl) h
  obtain ⟨hname, h⟩ := Token.append_inj_of_forall (Token.isNamePart_of_isIdentifier hf)
    (Token.isNamePart_of_isIdentifier hg) (by rintro _ ⟨⟩; rfl) (by rintro _ ⟨⟩; rfl)
    (List.append_cancel_left h)
  obtain ⟨htype, hbehind⟩ := hread hg' (List.append_cancel_left h)
  obtain ⟨offset, name, type⟩ := f
  obtain ⟨offset', name', type'⟩ := g
  dsimp only at hoffset hname htype
  exact ⟨by rw [hoffset, hname, htype], hbehind⟩

/-- Behind a field there is a comma, or the end of the fields. -/
theorem membersBehind_append_inj {fields fields' : List (Field Layout)} {s t : Text}
    (hread : ∀ f ∈ fields, f.type.IsReadBack)
    (hf : ∀ f ∈ fields, Token.isIdentifier f.name = true)
    (hg : ∀ g ∈ fields', Token.isIdentifier g.name = true)
    (hg' : ∀ g ∈ fields', g.type.everyPart isReadable = true)
    (h : membersBehind fields ++ s = membersBehind fields' ++ t) : fields = fields' ∧ s = t := by
  induction fields generalizing fields' with
  | nil =>
    cases fields' with
    | nil => exact ⟨rfl, List.append_cancel_left h⟩
    | cons g rest' => cases h
  | cons f rest ih =>
    cases fields' with
    | nil => cases h
    | cons g rest' =>
      rw [List.forall_mem_cons] at hread hf hg hg'
      simp only [membersBehind, List.append_assoc] at h
      obtain ⟨hfirst, h⟩ := member_append_inj hread.1 hf.1 hg.1 hg'.1 (List.append_cancel_left h)
      obtain ⟨hrest, hbehind⟩ := ih hread.2 hf.2 hg.2 hg'.2 h
      exact ⟨by rw [hfirst, hrest], hbehind⟩

/-- **Renderings are told apart**: of any text that begins with one, the layout can be told and
where its rendering ends. By induction on the layout, in front of any text. -/
theorem render_append_inj {a : Layout} (ha : a.everyPart isReadable = true) : a.IsReadBack := by
  induction a with
  | integer | float | rawAddress =>
    intro b s t hb h
    obtain ⟨hopening, hinside⟩ := opening_inside_eq ha hb h
    cases b <;> cases hopening
    exact ⟨rfl, hinside⟩
  | text n | wideText n =>
    intro b s t hb h
    obtain ⟨hopening, hinside⟩ := opening_inside_eq ha hb h
    cases b <;> cases hopening
    simp only [inside, List.append_assoc] at hinside
    obtain ⟨rfl, hbehind⟩ := decimal_append_inj (by rintro _ ⟨⟩; rfl) (by rintro _ ⟨⟩; rfl) hinside
    exact ⟨rfl, List.append_cancel_left hbehind⟩
  | pointer width inner ih =>
    intro b s t hb h
    obtain ⟨hopening, hinside⟩ := opening_inside_eq ha hb h
    cases b <;> cases hopening
    simp only [inside, List.append_assoc] at hinside
    obtain ⟨rfl, hbehind⟩ := ih (everyPart_pointer.mp ha).2 (everyPart_pointer.mp hb).2 hinside
    exact ⟨rfl, List.append_cancel_left hbehind⟩
  | collection element n ih =>
    intro b s t hb h
    obtain ⟨hopening, hinside⟩ := opening_inside_eq ha hb h
    cases b <;> cases hopening
    simp only [inside, List.append_assoc] at hinside
    obtain ⟨rfl, hcount⟩ :=
      ih (everyPart_collection.mp ha).2 (everyPart_collection.mp hb).2 hinside
    obtain ⟨rfl, hbehind⟩ := decimal_append_inj (by rintro _ ⟨⟩; rfl) (by rintro _ ⟨⟩; rfl)
      (List.append_cancel_left hcount)
    exact ⟨rfl, List.append_cancel_left hbehind⟩
  | struct fields ih =>
    intro b s t hb h
    obtain ⟨hopening, hinside⟩ := opening_inside_eq ha hb h
    cases b <;> cases hopening
    rename_i fields'
    rw [everyPart_struct, isReadable, List.all_eq_true] at ha hb
    have hread : ∀ f ∈ fields, f.type.IsReadBack := fun f hf => ih f hf (ha.2 f hf)
    cases fields with
    | nil =>
      cases fields' with
      | nil => exact ⟨rfl, List.append_cancel_left hinside⟩
      | cons g rest' => cases hinside
    | cons f rest =>
      cases fields' with
      | nil => cases hinside
      | cons g rest' =>
        -- The first field has a brace in front of it where the others have a comma.
        have hmembers : membersBehind (f :: rest) ++ s = membersBehind (g :: rest') ++ t := by
          simp only [inside, List.append_assoc] at hinside
          simp only [membersBehind, List.append_assoc, List.append_cancel_left hinside]
        obtain ⟨hfields, hbehind⟩ := membersBehind_append_inj hread ha.1 hb.1 hb.2 hmembers
        exact ⟨congrArg struct hfields, hbehind⟩
  | foreign v => cases (everyPart_foreign.mp ha).1

theorem render_eq_iff {a b : Layout} (ha : a.everyPart isReadable = true)
    (hb : b.everyPart isReadable = true) : a.render = b.render ↔ a = b :=
  ⟨fun h => (render_append_inj ha hb (congrArg (· ++ []) h)).1, congrArg render⟩

/-! ### Layouts as they are shown -/

variable [Host]

/-- What keeps layouts from being shown is a number that is too long. -/
theorem renderFault?_of_isGenuine {l : Layout} (h : l.isGenuine = true) :
    l.renderFault? = none ∨ l.renderFault? = some (.failure .longNumeral) := by
  have hnumber : ∀ n : Int, numeralFault? n = none ∨
      numeralFault? n = some (.failure .longNumeral) := fun n => by
    rw [numeralFault?]
    split
    · exact .inl rfl
    · exact .inr rfl
  have hor : ∀ {x y : Option Error}, (x = none ∨ x = some (.failure .longNumeral)) →
      (y = none ∨ y = some (.failure .longNumeral)) →
      x.or y = none ∨ x.or y = some (.failure .longNumeral) := by
    rintro x y (rfl | rfl) hy
    · rwa [Option.none_or]
    · exact .inr rfl
  induction l with
  | pointer width inner ih => exact ih h
  | text length | wideText length => exact hnumber length
  | collection element count ih => exact hor (ih h) (hnumber count)
  | struct fields ih =>
    rw [isGenuine, fieldsGenuine_iff] at h
    rw [renderFault?]
    induction fields with
    | nil => exact .inl rfl
    | cons f rest ihrest =>
      rw [List.forall_mem_cons] at ih h
      exact hor (hor (hnumber f.offset) (ih.1 h.1)) (ihrest ih.2 h.2)
  | foreign v => cases h
  | _ => exact .inl rfl

theorem describe_eq_ok {l : Layout} {t : Text} (h : l.describe = .ok t) : t = l.render := by
  rw [describe] at h
  cases hfault : l.renderFault? with
  | none =>
    rw [hfault] at h
    cases h
    rfl
  | some e =>
    rw [hfault] at h
    cases h

/-- **Where a layout cannot be shown**, scripts have no words for a part of it, and what is told is
that a number is too long. -/
theorem describe_eq_error_iff {l : Layout} (h : l.isGenuine = true) {e : Error} :
    l.describe = .error e ↔ l.everyPart isSayable = false ∧ e = .failure .longNumeral := by
  rw [← Bool.not_eq_true, ← renderFault?_eq_none_iff, describe]
  rcases renderFault?_of_isGenuine h with hfault | hfault <;>
    simp [hfault, shownUnless, eq_comm]

/-- **Two layouts are told apart** by what is shown of each: where both have something to show,
it is the same exactly if they are equal. -/
def ToldApart {α : Type} (shown : Layout → Except Error α) (a b : Layout) : Prop :=
  ∀ x y, shown a = .ok x → shown b = .ok y → (x = y ↔ a.equal b = true)

/-- Whatever is made of the texts of layouts without losing any of them tells layouts apart. -/
theorem toldApart_of_describe {α : Type} {shown : Layout → Except Error α} {f : Text → α}
    (hf : Function.Injective f) (hshown : ∀ l, shown l = l.describe.map f) {a b : Layout}
    (ha : a.everyPart isReadable = true) (hb : b.everyPart isReadable = true) :
    ToldApart shown a b := by
  have hmade : ∀ {l : Layout} {x : α}, shown l = .ok x → ∃ t, l.describe = .ok t ∧ f t = x := by
    intro l x hx
    rw [hshown] at hx
    cases hdescribe : l.describe with
    | error e =>
      rw [hdescribe] at hx
      cases hx
    | ok t =>
      rw [hdescribe] at hx
      exact ⟨t, rfl, Except.ok.inj hx⟩
  intro x y hx hy
  obtain ⟨s, hs, rfl⟩ := hmade hx
  obtain ⟨t, ht, rfl⟩ := hmade hy
  rw [hf.eq_iff, describe_eq_ok hs, describe_eq_ok ht, render_eq_iff ha hb,
    equal_iff_eq (isGenuine_of_readable ha) (isGenuine_of_readable hb)]

end Layout

end TypedMemory
