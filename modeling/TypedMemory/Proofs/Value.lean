import TypedMemory.Proofs.Layout

/-!
# Values put together

Records are looked up, bound and made of entries by name. What holds of every value that goes
in holds of the record that comes out, and entries with names of their own are a record as
they are.

Binding a value gives it tags, and that goes all the way down, into the layouts inside of the
value too. It changes nothing that can be seen of a layout but in what was put in the place of
one: sizes stay (`TypedMemory.Layout.size_tagged`), and so does every condition on the parts
that does not look at tags (`TypedMemory.Value.everyPart_tagged`).
-/

namespace TypedMemory

/-! ### Records -/

namespace Value

theorem exists_mem_of_lookup? {entries : List (Entry Value)} {name : Text} {v : Value}
    (h : lookup? entries name = some v) : ∃ e ∈ entries, e.value = v := by
  obtain ⟨e, he, rfl⟩ := Option.map_eq_some_iff.mp h
  exact ⟨e, List.mem_of_find?_eq_some he, rfl⟩

theorem bind_of_not_mem {entries : List (Entry Value)} {name : Text} {v : Value}
    (h : name ∉ entries.map Entry.name) : bind entries name v = entries ++ [⟨name, v⟩] := by
  induction entries with
  | nil => rfl
  | cons e rest ih =>
    rw [List.map_cons, List.mem_cons, not_or] at h
    rw [bind, if_neg (Ne.symm h.1), ih h.2, List.cons_append]

/-- Entries with names of their own are a record as they are. -/
theorem ofEntries_of_nodup {entries : List (Entry Value)} (h : (entries.map Entry.name).Nodup) :
    ofEntries entries = record entries := by
  have hfold : ∀ (rest bound : List (Entry Value)), ((bound ++ rest).map Entry.name).Nodup →
      rest.foldl (fun bound e => bind bound e.name e.value) bound = bound ++ rest := by
    intro rest
    induction rest with
    | nil => exact fun bound _ => (List.append_nil bound).symm
    | cons e rest ih =>
      intro bound hnodup
      have hnot : e.name ∉ bound.map Entry.name := by
        rw [List.map_append, List.map_cons] at hnodup
        intro hmem
        exact (List.nodup_append.mp hnodup).2.2 _ hmem _ List.mem_cons_self rfl
      rw [List.foldl_cons, bind_of_not_mem hnot, ih]
      · rw [List.append_assoc, List.singleton_append]
      · rwa [List.append_assoc, List.singleton_append]
  rw [ofEntries, hfold entries [] h, List.nil_append]

theorem mem_bind {entries : List (Entry Value)} {name : Text} {v : Value} {e : Entry Value}
    (h : e ∈ bind entries name v) : e ∈ entries ∨ e = ⟨name, v⟩ := by
  induction entries with
  | nil => exact Or.inr (List.mem_singleton.mp h)
  | cons d rest ih =>
    rw [bind] at h
    split at h
    · rcases List.mem_cons.mp h with rfl | h
      · exact Or.inr rfl
      · exact Or.inl (List.mem_cons_of_mem _ h)
    · rcases List.mem_cons.mp h with rfl | h
      · exact Or.inl List.mem_cons_self
      · exact (ih h).imp_left (List.mem_cons_of_mem _)

/-- A name that is bound is looked up as it was bound, and all others as before. -/
theorem lookup?_bind (entries : List (Entry Value)) (name other : Text) (v : Value) :
    lookup? (bind entries name v) other =
      if name = other then some v else lookup? entries other := by
  induction entries with
  | nil => by_cases h : name = other <;> simp [bind, lookup?, h]
  | cons e rest ih =>
    simp only [lookup?] at ih ⊢
    rw [bind]
    by_cases he : e.name = name
    · by_cases h : name = other <;> simp [he, h]
    · rw [if_neg he]
      by_cases h : e.name = other
      · have hne : name ≠ other := fun heq => he (h.trans heq.symm)
        simp [h, hne]
      · rw [List.find?_cons_of_neg (by simpa using h),
          List.find?_cons_of_neg (by simpa using h), ih]

/-- Where every name is there once, an entry is found by its name. -/
theorem lookup?_eq_some_iff {entries : List (Entry Value)}
    (h : (entries.map Entry.name).Nodup) {name : Text} {v : Value} :
    lookup? entries name = some v ↔ ⟨name, v⟩ ∈ entries := by
  induction entries with
  | nil => simp [lookup?]
  | cons e rest ih =>
    rw [List.map_cons, List.nodup_cons] at h
    have hrest := ih h.2
    rw [lookup?] at hrest ⊢
    by_cases he : e.name = name
    · have hnot : ⟨name, v⟩ ∉ rest := fun hmem =>
        h.1 (he ▸ List.mem_map_of_mem (f := Entry.name) hmem)
      obtain ⟨n, x⟩ := e
      cases he
      simp [hnot, eq_comm]
    · have hne : (⟨name, v⟩ : Entry Value) ≠ e := fun heq => he (heq ▸ rfl)
      rw [List.find?_cons_of_neg (by simpa using he), hrest, List.mem_cons, or_iff_right hne]

theorem lookup?_append (front back : List (Entry Value)) (name : Text) :
    lookup? (front ++ back) name = (lookup? front name).or (lookup? back name) := by
  rw [lookup?, List.find?_append, Option.map_or]
  rfl

/-- Where some names are passed over, the others are looked up as before. -/
theorem lookup?_filter (p : Text → Bool) (entries : List (Entry Value)) (name : Text) :
    lookup? (entries.filter fun e => p e.name) name =
      if p name then lookup? entries name else none := by
  have hpass : (fun e : Entry Value => decide (p e.name = true ∧ decide (e.name = name) = true)) =
      fun e => p name && decide (e.name = name) := by
    funext e
    by_cases h : e.name = name <;> simp [h]
  rw [lookup?, List.find?_filter, hpass]
  cases p name <;> simp [lookup?]

/-- Where every name is there once, the order of the entries does not matter. -/
theorem lookup?_eq_of_perm {entries entries' : List (Entry Value)} (h : entries.Perm entries')
    (hnodup : (entries'.map Entry.name).Nodup) (name : Text) :
    lookup? entries name = lookup? entries' name := by
  have hnodup' : (entries.map Entry.name).Nodup := (h.map Entry.name).nodup_iff.mpr hnodup
  refine Option.ext fun v => ?_
  rw [lookup?_eq_some_iff hnodup', lookup?_eq_some_iff hnodup, h.mem_iff]

/-- Where a name comes twice in a record in the making, the last value counts. -/
theorem lookup?_foldl_bind (entries bound : List (Entry Value)) (name : Text) :
    lookup? (entries.foldl (fun bound e => bind bound e.name e.value) bound) name =
      (lookup? entries.reverse name).or (lookup? bound name) := by
  induction entries generalizing bound with
  | nil => rfl
  | cons e rest ih =>
    rw [List.foldl_cons, ih, List.reverse_cons, lookup?_append, Option.or_assoc, lookup?_bind]
    by_cases h : e.name = name <;> simp [lookup?, h]

/-- Names stay in their order, and a new one comes last. -/
theorem map_name_bind (entries : List (Entry Value)) (name : Text) (v : Value) :
    (bind entries name v).map Entry.name = entries.map Entry.name ++
      if name ∈ entries.map Entry.name then [] else [name] := by
  induction entries with
  | nil => rfl
  | cons e rest ih =>
    rw [bind]
    by_cases he : e.name = name
    · simp [he]
    · have hmem : name ∈ (e :: rest).map Entry.name ↔ name ∈ rest.map Entry.name := by
        rw [List.map_cons, List.mem_cons, or_iff_right (Ne.symm he)]
      rw [if_neg he, List.map_cons, ih, List.map_cons, List.cons_append]
      simp only [← hmem, List.map_cons]

section EveryPart

variable {p : Layout → Bool}

/-- What holds of all entries holds of the record that they make. -/
theorem everyPart_ofEntries {entries : List (Entry Value)}
    (h : ∀ e ∈ entries, e.value.everyPart p = true) : (ofEntries entries).everyPart p = true := by
  have hfold : ∀ (rest bound : List (Entry Value)), (∀ e ∈ rest, e.value.everyPart p = true) →
      (∀ e ∈ bound, e.value.everyPart p = true) →
      ∀ e ∈ rest.foldl (fun bound e => bind bound e.name e.value) bound,
        e.value.everyPart p = true := by
    intro rest
    induction rest with
    | nil => exact fun bound _ hbound => hbound
    | cons d rest ih =>
      intro bound hrest hbound
      rw [List.forall_mem_cons] at hrest
      refine ih _ hrest.2 fun e he => ?_
      rcases mem_bind he with he | rfl
      · exact hbound e he
      · exact hrest.1
  exact everyPart_record.mpr (hfold entries [] h nofun)

theorem everyPart_of_lookup? {entries : List (Entry Value)} {name : Text} {v : Value}
    (h : ∀ e ∈ entries, e.value.everyPart p = true) (hv : lookup? entries name = some v) :
    v.everyPart p = true := by
  obtain ⟨e, he, rfl⟩ := exists_mem_of_lookup? hv
  exact h e he

end EveryPart

end Value

theorem Layout.everyPart_toValue {p : Layout → Bool} {l : Layout} (h : l.everyPart p = true) :
    l.toValue.everyPart p = true := by
  cases l with
  | foreign v => exact (Layout.everyPart_foreign.mp h).2
  | _ => exact h

/-! ### Tags -/

namespace Layout

theorem tagged_struct (fields : List (Field Layout)) (n : Nat) :
    ((struct fields).tagged n).1 = struct (fieldsTagged fields n).1 := rfl

theorem fieldsTagged_cons (f : Field Layout) (rest : List (Field Layout)) (n : Nat) :
    (fieldsTagged (f :: rest) n).1 = ⟨f.offset, f.name, (f.type.tagged n).1⟩ ::
      (fieldsTagged rest (f.type.tagged n).2).1 := rfl

/-- Tags take no room. -/
theorem size_tagged (l : Layout) (n : Nat) : (l.tagged n).1.size = l.size := by
  induction l generalizing n with
  | struct fields ih =>
    rw [tagged_struct, size, size]
    induction fields generalizing n with
    | nil => rfl
    | cons f rest hrest =>
      rw [List.forall_mem_cons] at ih
      rw [fieldsTagged_cons]
      cases rest with
      | nil =>
        rw [show (fieldsTagged [] (f.type.tagged n).2).1 = [] from rfl, size.fieldsSize,
          size.fieldsSize, ih.1]
      | cons g rest =>
        have htail := hrest ih.2 (f.type.tagged n).2
        rw [fieldsTagged_cons] at htail ⊢
        rw [size.fieldsSize, size.fieldsSize, htail]
  | collection element count ih =>
    change count * (element.tagged n).1.size = count * element.size
    rw [ih]
  | _ => rfl

end Layout

section Tagged

variable {p : Layout → Bool}

mutual

/-- A condition on parts that does not look at tags is kept by tagging. -/
theorem Layout.everyPart_tagged (hp : ∀ l n, p l = true → p (l.tagged n).1 = true)
    (l : Layout) (n : Nat) (h : l.everyPart p = true) :
    (l.tagged n).1.everyPart p = true := by
  match l with
  | .pointer width inner =>
    rw [Layout.everyPart_pointer] at h
    exact Layout.everyPart_pointer.mpr ⟨hp _ n h.1, inner.everyPart_tagged hp n h.2⟩
  | .struct fields =>
    rw [Layout.everyPart_struct] at h
    exact Layout.everyPart_struct.mpr ⟨hp _ n h.1, Layout.fieldsEveryPart_tagged hp fields n h.2⟩
  | .collection element count =>
    rw [Layout.everyPart_collection] at h
    exact Layout.everyPart_collection.mpr ⟨hp _ n h.1, element.everyPart_tagged hp n h.2⟩
  | .foreign v =>
    rw [Layout.everyPart_foreign] at h
    exact Layout.everyPart_foreign.mpr ⟨hp _ n h.1, v.everyPart_tagged hp n h.2⟩
  | .integer _ | .float _ | .rawAddress _ | .text _ | .wideText _ => exact h

theorem Layout.fieldsEveryPart_tagged (hp : ∀ l n, p l = true → p (l.tagged n).1 = true)
    (fields : List (Field Layout)) (n : Nat) (h : ∀ f ∈ fields, f.type.everyPart p = true) :
    ∀ f ∈ (Layout.fieldsTagged fields n).1, f.type.everyPart p = true := by
  match fields with
  | [] => exact nofun
  | ⟨offset, name, type⟩ :: rest =>
    rw [List.forall_mem_cons] at h
    rw [Layout.fieldsTagged_cons, List.forall_mem_cons]
    exact ⟨type.everyPart_tagged hp n h.1, Layout.fieldsEveryPart_tagged hp rest _ h.2⟩

/-- **Tagging a value** keeps every condition on parts that does not look at tags. -/
theorem Value.everyPart_tagged (hp : ∀ l n, p l = true → p (l.tagged n).1 = true)
    (v : Value) (n : Nat) (h : v.everyPart p = true) :
    (v.tagged n).1.everyPart p = true := by
  match v with
  | .array items =>
    exact Value.everyPart_array.mpr
      (Value.itemsEveryPart_tagged hp items n (Value.everyPart_array.mp h))
  | .record entries =>
    exact Value.everyPart_record.mpr
      (Value.entriesEveryPart_tagged hp entries n (Value.everyPart_record.mp h))
  | .pointer target location tag =>
    exact target.everyPart_tagged hp _ h
  | .type l => exact l.everyPart_tagged hp n h
  | .unit | .bool _ | .int _ | .float _ _ | .text _ | .address _ | .bytes _ | .memory => rfl

theorem Value.itemsEveryPart_tagged (hp : ∀ l n, p l = true → p (l.tagged n).1 = true)
    (items : List Value) (n : Nat) (h : ∀ v ∈ items, v.everyPart p = true) :
    ∀ v ∈ (Value.itemsTagged items n).1, v.everyPart p = true := by
  match items with
  | [] => exact nofun
  | v :: rest =>
    rw [List.forall_mem_cons] at h
    exact List.forall_mem_cons.mpr
      ⟨v.everyPart_tagged hp n h.1, Value.itemsEveryPart_tagged hp rest _ h.2⟩

theorem Value.entriesEveryPart_tagged (hp : ∀ l n, p l = true → p (l.tagged n).1 = true)
    (entries : List (Entry Value)) (n : Nat) (h : ∀ e ∈ entries, e.value.everyPart p = true) :
    ∀ e ∈ (Value.entriesTagged entries n).1, e.value.everyPart p = true := by
  match entries with
  | [] => exact nofun
  | ⟨name, v⟩ :: rest =>
    rw [List.forall_mem_cons] at h
    exact List.forall_mem_cons.mpr
      ⟨v.everyPart_tagged hp n h.1, Value.entriesEveryPart_tagged hp rest _ h.2⟩

end

end Tagged

end TypedMemory
