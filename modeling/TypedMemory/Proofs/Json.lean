import TypedMemory.Json.Render
import TypedMemory.Proofs.Layout

/-!
# Values with a JSON form

Not every value that a script gives can be written as JSON. There are no words for the memory and
for bytes, a number can be too long to be spelled, and a layout, or that of an address, may not
have a script form to stand for it. These are all that is in the way
(`TypedMemory.Json.render_plain_iff`): it does not depend on the style, and a value with none of
them in it, however deep it goes, is written.
-/

namespace TypedMemory

/-- **Whether a value has a JSON form**: nothing in it is the memory or bytes, all numbers in it
can be spelled, and scripts have words for all layouts in it. -/
def Value.hasJson : Value → Bool
  | .int n => Numeral.isSpellable n
  | .array items => itemsHaveJson items
  | .record entries => entriesHaveJson entries
  | .pointer target _ _ => target.everyPart Layout.isSayable
  | .type layout => layout.everyPart Layout.isSayable
  | .bytes _ | .memory => false
  | .unit | .bool _ | .float _ _ | .text _ | .address _ => true
where
  /-- Whether each item has a JSON form. -/
  itemsHaveJson : List Value → Bool
  | [] => true
  | v :: rest => v.hasJson && itemsHaveJson rest
  /-- Whether the value of each entry has a JSON form. -/
  entriesHaveJson : List (Entry Value) → Bool
  | [] => true
  | e :: rest => e.value.hasJson && entriesHaveJson rest

@[simp] theorem Value.hasJson_array {items : List Value} :
    (array items).hasJson = true ↔ ∀ v ∈ items, v.hasJson = true := by
  rw [hasJson]
  induction items with
  | nil => simp [hasJson.itemsHaveJson]
  | cons v rest ih => simp [hasJson.itemsHaveJson, ih]

@[simp] theorem Value.hasJson_record {entries : List (Entry Value)} :
    (record entries).hasJson = true ↔ ∀ e ∈ entries, e.value.hasJson = true := by
  rw [hasJson]
  induction entries with
  | nil => simp [hasJson.entriesHaveJson]
  | cons e rest ih => simp [hasJson.entriesHaveJson, ih]

namespace Json

theorem exists_bind_eq_ok_iff {ε α β : Type} {x : Except ε α} {f : α → Except ε β} :
    (∃ b, (x >>= f) = .ok b) ↔ ∃ a, x = .ok a ∧ ∃ b, f a = .ok b := by
  cases x with
  | ok a => exact ⟨fun ⟨b, h⟩ => ⟨a, rfl, b, h⟩, fun ⟨_, ha, h⟩ => by cases ha; exact h⟩
  | error e => exact ⟨fun ⟨_, h⟩ => (nomatch h), fun ⟨_, h, _⟩ => (nomatch h)⟩

theorem exists_pure_eq_ok {ε α : Type} (a : α) : ∃ b, (pure a : Except ε α) = .ok b :=
  ⟨a, rfl⟩

theorem exists_describe_bind_iff [Host] {β : Type} {l : Layout} {f : Text → Except Error β}
    (h : ∀ t, ∃ b, f t = .ok b) :
    (∃ b, (l.describe >>= f) = .ok b) ↔ l.everyPart Layout.isSayable = true := by
  rw [exists_bind_eq_ok_iff, ← Layout.renderFault?_eq_none_iff, ← Layout.describe_eq_ok_iff]
  exact ⟨fun ⟨t, ht, _⟩ => ⟨t, ht⟩, fun ⟨t, ht⟩ => ⟨t, ht, h t⟩⟩

/-- All parts are made plain before the first is written, and yet each part is made into JSON on
its own. -/
theorem exists_and_exists_iff {α β : Type} {p p' : α → Prop} {q q' : β → Prop} :
    (∃ a, p a ∧ ∃ b, q b ∧ p' a ∧ q' b) ↔ (∃ a, p a ∧ p' a) ∧ ∃ b, q b ∧ q' b :=
  ⟨fun ⟨a, ha, b, hb, ha', hb'⟩ => ⟨⟨a, ha, ha'⟩, b, hb, hb'⟩,
    fun ⟨⟨a, ha, ha'⟩, b, hb, hb'⟩ => ⟨a, ha, b, hb, ha', hb'⟩⟩

variable [Host] (style : Style)

mutual

/-- A value is made plain and written exactly where it has a JSON form, at every level of
nesting. -/
theorem renderAt_plain_iff (v : Value) (level : Nat) :
    (∃ shown, (plain v >>= fun p => renderAt style p level) = .ok shown) ↔ v.hasJson = true := by
  match v with
  | .int n =>
    change (∃ shown, (spellable n >>= fun _ => _) = .ok shown) ↔ Numeral.isSpellable n = true
    rw [spellable]
    cases Numeral.isSpellable n with
    | true => exact ⟨fun _ => rfl, fun _ => ⟨_, rfl⟩⟩
    | false => exact ⟨fun ⟨_, h⟩ => (nomatch h), nofun⟩
  | .pointer target location tag =>
    rw [plain, bind_assoc]
    exact exists_describe_bind_iff fun t => ⟨_, rfl⟩
  | .type layout =>
    have hplain : (plain (.type layout) >>= fun p => renderAt style p level) =
        layout.describe >>= fun t => renderAt style (.text t) level := by
      rw [plain]
      cases layout.describe <;> rfl
    rw [hplain]
    exact exists_describe_bind_iff fun t => ⟨_, rfl⟩
  | .array items =>
    rw [Value.hasJson_array, ← itemsAt_plain_iff items (level + 1)]
    simp only [plain, renderAt, bind_assoc, pure_bind, exists_bind_eq_ok_iff, exists_pure_eq_ok,
      and_true]
  | .record entries =>
    rw [Value.hasJson_record, ← entriesAt_plain_iff entries (level + 1)]
    simp only [plain, renderAt, bind_assoc, pure_bind, exists_bind_eq_ok_iff, exists_pure_eq_ok,
      and_true]
  | .unit | .bool _ | .float _ _ | .text _ | .address _ => exact ⟨fun _ => rfl, fun _ => ⟨_, rfl⟩⟩
  | .bytes _ | .memory => exact ⟨fun ⟨_, h⟩ => (nomatch h), nofun⟩

theorem itemsAt_plain_iff (items : List Value) (level : Nat) :
    (∃ parts, (plain.plainItems items >>= fun ps => renderAt.itemsAt style ps level) = .ok parts) ↔
      ∀ v ∈ items, v.hasJson = true := by
  match items with
  | [] => exact ⟨fun _ _ h => absurd h List.not_mem_nil, fun _ => ⟨_, rfl⟩⟩
  | v :: rest =>
    rw [List.forall_mem_cons, ← renderAt_plain_iff v level, ← itemsAt_plain_iff rest level]
    -- Both walks go along the items, so their steps come one behind the other for each.
    simp only [plain.plainItems, renderAt.itemsAt, bind_assoc, pure_bind, exists_bind_eq_ok_iff,
      exists_pure_eq_ok, and_true, exists_and_right]
    exact exists_and_exists_iff

theorem entriesAt_plain_iff (entries : List (Entry Value)) (level : Nat) :
    (∃ parts, (plain.plainEntries entries >>= fun ps => renderAt.entriesAt style ps level) =
      .ok parts) ↔ ∀ e ∈ entries, e.value.hasJson = true := by
  match entries with
  | [] => exact ⟨fun _ _ h => absurd h List.not_mem_nil, fun _ => ⟨_, rfl⟩⟩
  | ⟨name, v⟩ :: rest =>
    rw [List.forall_mem_cons, ← renderAt_plain_iff v level, ← entriesAt_plain_iff rest level]
    simp only [plain.plainEntries, renderAt.entriesAt, bind_assoc, pure_bind, exists_bind_eq_ok_iff,
      exists_pure_eq_ok, and_true, exists_and_right]
    exact exists_and_exists_iff

end

/-- **A value can be written as JSON** exactly where it has a JSON form. -/
theorem render_plain_iff (v : Value) :
    (∃ shown, (plain v >>= render style) = .ok shown) ↔ v.hasJson = true :=
  renderAt_plain_iff style v 0

end Json

end TypedMemory
