import Mathlib.Data.List.Forall2
import Mathlib.Data.List.TakeWhile
import TypedMemory.Proofs.Effect
import TypedMemory.Proofs.Json.Quoting

/-!
# JSON put together from pieces

What is JSON by itself is JSON inside of an object, and has the same value there: the text of an
object with given members is read as the record of what the members are by themselves
(`TypedMemory.Json.parse_objectText`). The members may be any texts, with blanks around them.

A reader looks ahead, so this is not so for all texts: what is behind a number could go on with
it. But inside of an object there is a colon, a comma or a bracket behind each piece, and with
none of these does anything go on (`TypedMemory.Json.follows_plain`). So whatever is read off the
front of a text is read off it in front of one of them as well
(`TypedMemory.Json.keeps`). The induction there is on the bound for the nesting, and it
carries that a larger bound gives the same, because a piece is read with the bound of the whole
object.
-/

namespace TypedMemory.Json

/-- What stands behind the pieces of objects and arrays. -/
def follows : List CodePoint := [',', ':', ']', '\x7d']

/-- No value goes on with what stands behind the pieces of objects and arrays. -/
theorem follows_plain : ∀ e ∈ follows, isBlank e = false ∧ e.isDigit = false ∧ e ≠ '.' ∧
    (e ≠ 'e' ∧ e ≠ 'E') ∧ (e ≠ '-' ∧ e ≠ '+') ∧ e ≠ '0' ∧ ∀ w ∈ words, e ∉ w.1 := by decide

/-- More text behind what was left. -/
def onward {α : Type} (more : Text) (r : α × Text) : α × Text := (r.1, r.2 ++ more)

@[simp] theorem onward_fst {α : Type} (more : Text) (r : α × Text) : (onward more r).1 = r.1 := rfl

@[simp] theorem onward_snd {α : Type} (more : Text) (r : α × Text) :
    (onward more r).2 = r.2 ++ more := rfl

section

variable {e : CodePoint} (he : e ∈ follows)

/-! ### Texts -/

theorem unescaped_append {t s rest : Text} (h : unescaped t = .ok (s, rest)) (more : Text) :
    unescaped (t ++ more) = .ok (s, rest ++ more) := by
  fun_induction unescaped t generalizing s rest with
  | case1 | case3 | case4 | case6 | case7 | case9 => cases h
  | case2 t =>
    cases h
    rw [List.cons_append, unescaped.eq_def]
    rfl
  | case5 a b c d t unit hunit hquote hlow ih =>
    obtain ⟨⟨s', rest'⟩, hs, h⟩ := exists_of_bind_eq_ok h
    cases h
    simp only [List.cons_append]
    rw [unescaped.eq_def]
    simp only [if_neg hquote, if_neg hlow, if_pos, hunit, ih hs]
    rfl
  | case8 d t hu meaning hmeaning hquote hlow ih =>
    obtain ⟨⟨s', rest'⟩, hs, h⟩ := exists_of_bind_eq_ok h
    cases h
    simp only [List.cons_append]
    rw [unescaped.eq_def]
    simp only [if_neg hquote, if_neg hlow, if_pos, if_neg hu, hmeaning, ih hs]
    rfl
  | case10 c t hquote hlow hback ih =>
    obtain ⟨⟨s', rest'⟩, hs, h⟩ := exists_of_bind_eq_ok h
    cases h
    rw [List.cons_append, unescaped.eq_def]
    simp only [if_neg hquote, if_neg hlow, if_neg hback, ih hs]
    rfl

theorem text_append {t s rest : Text} (h : text t = .ok (s, rest)) (more : Text) :
    text (t ++ more) = .ok (s, rest ++ more) := by
  obtain ⟨⟨s', r'⟩, hs, h⟩ := exists_of_bind_eq_ok h
  cases h
  rw [text, unescaped_append hs]
  rfl

/-! ### Blanks and numbers -/

include he

theorem skipBlanks_append (t more : Text) :
    skipBlanks (t ++ e :: more) = skipBlanks t ++ e :: more := by
  have hblank := (follows_plain e he).1
  rw [skipBlanks, List.dropWhile_append, skipBlanks]
  split
  · next hempty =>
    rw [List.isEmpty_iff.mp hempty, List.dropWhile_cons_of_neg (by simp [hblank])]
    rfl
  · rfl

theorem digits_append (t more : Text) :
    digits (t ++ e :: more) = onward (e :: more) (digits t) := by
  have hdigit := (follows_plain e he).2.1
  induction t with
  | nil => simp [digits, onward, hdigit]
  | cons c t ih =>
    simp only [digits, onward, Prod.mk.injEq] at ih
    by_cases hc : c.isDigit = true
    · simp [digits, onward, hc, ih]
    · simp [digits, onward, hc]

omit he in
theorem head?_append {s : CodePoint} (hs : e ≠ s) (t more : Text) :
    (t ++ e :: more).head? = some s ↔ t.head? = some s := by
  cases t <;> simp [hs]

theorem fraction?_append (t more : Text) :
    fraction? (t ++ e :: more) = (fraction? t).map (onward (e :: more)) := by
  obtain ⟨-, -, hpoint, -⟩ := follows_plain e he
  cases t with
  | nil => simp [fraction?, hpoint]
  | cons c t =>
    rw [List.cons_append, fraction?, fraction?, digits_append he, onward_fst]
    split <;> rfl

theorem exponent?_append (t more : Text) :
    exponent? (t ++ e :: more) = (exponent? t).map (onward (e :: more)) := by
  obtain ⟨-, -, -, hletter, hsign, -⟩ := follows_plain e he
  cases t with
  | nil => simp [exponent?, hletter.1, hletter.2]
  | cons c t =>
    have hminus := head?_append hsign.1 t more
    have hplus := head?_append hsign.2 t more
    have hunsigned : (if t.head? = some ('-' : CodePoint) ∨ t.head? = some ('+' : CodePoint)
        then (t ++ e :: more).drop 1 else t ++ e :: more) =
      (if t.head? = some ('-' : CodePoint) ∨ t.head? = some ('+' : CodePoint)
        then t.drop 1 else t) ++ e :: more := by
      cases t with
      | nil => rfl
      | cons d t => split <;> rfl
    rw [List.cons_append, exponent?, exponent?]
    simp only [hminus, hplus, hunsigned, digits_append he, onward_fst, onward_snd]
    generalize (if t.head? = some ('-' : CodePoint) ∨ t.head? = some ('+' : CodePoint)
      then t.drop 1 else t) = unsigned
    by_cases hc : c = 'e' ∨ c = 'E'
    · rw [if_pos hc, if_pos hc]
      split <;> rfl
    · rw [if_neg hc, if_neg hc]
      rfl

theorem number_append (negative : Bool) (t more : Text) :
    number negative (t ++ e :: more) = (number negative t).map (onward (e :: more)) := by
  obtain ⟨-, -, -, -, -, hzero, -⟩ := follows_plain e he
  have hwhole : (if (t ++ e :: more).head? = some ('0' : CodePoint)
        then ((t ++ e :: more).take 1, (t ++ e :: more).drop 1) else digits (t ++ e :: more)) =
      onward (e :: more)
        (if t.head? = some ('0' : CodePoint) then (t.take 1, t.drop 1) else digits t) := by
    rw [digits_append he]
    cases t with
    | nil => simp [hzero]
    | cons d t =>
      simp only [List.cons_append, List.head?_cons, Option.some.injEq]
      split <;> rfl
  rw [number, number, hwhole]
  generalize (if t.head? = some ('0' : CodePoint) then (t.take 1, t.drop 1) else digits t) = r
  obtain ⟨whole, rest⟩ := r
  simp only [onward, fraction?_append he]
  split
  · rfl
  cases hfraction : fraction? rest with
  | none =>
    simp only [Option.map_none, exponent?_append he]
    cases exponent? rest with
    | none =>
      simp only [Option.map_none]
      split
      · split <;> rfl
      · rfl
    | some r => rfl
  | some r =>
    simp only [Option.map_some, onward, exponent?_append he]
    cases exponent? r.2 <;> rfl

omit he in
/-- A row of digits is a whole number, unless it is too long to be read. -/
theorem number_of_digits (negative : Bool) {t : Text} (ht : ∀ c ∈ t, c.isDigit = true)
    (hne : t ≠ []) (hzero : t.head? ≠ some ('0' : CodePoint)) :
    number negative t =
      if t.length ≤ Numeral.digitLimit then
        .ok (.int (if negative then -(Numeral.value 10 t : Int) else Numeral.value 10 t), [])
      else .error .longNumeral := by
  have hdigits : digits t = (t, []) := by
    rw [digits, List.takeWhile_eq_self_iff.mpr ht, List.dropWhile_eq_nil_iff.mpr ht]
  rw [number, if_neg hzero, hdigits]
  dsimp only
  rw [if_neg hne]
  rfl

/-! ### Words -/

omit he in
theorem behind?_append {word : Text} (hword : e ∉ word) (t more : Text) :
    behind? word (t ++ e :: more) = (behind? word t).map (· ++ e :: more) := by
  induction word generalizing t with
  | nil => simp [behind?]
  | cons w word ih =>
    rw [List.mem_cons, not_or] at hword
    cases t with
    | nil => simp [behind?, Ne.symm hword.1]
    | cons c t =>
      have h := ih hword.2 t
      simp only [behind?, List.cons_append, List.isPrefixOf_cons_cons] at h ⊢
      by_cases hc : w = c
      · simpa [hc] using h
      · simp [hc]

theorem word?_append (t more : Text) :
    word? (t ++ e :: more) = (word? t).map (onward (e :: more)) := by
  have hplain := (follows_plain e he).2.2.2.2.2.2
  rw [word?, word?]
  generalize words = ws at hplain
  induction ws with
  | nil => rfl
  | cons w ws ih =>
    obtain ⟨word, v⟩ := w
    obtain ⟨hword, hws⟩ := List.forall_mem_cons.mp hplain
    simp only [List.findSome?_cons, behind?_append hword]
    cases behind? word t with
    | none => exact ih hws
    | some rest => rfl

end

/-! ### Readers -/

/-- What takes a value off the front of a text. -/
abbrev Reader (α : Type) := Text → Except Failure (α × Text)

/-- What the first reader takes off the front of a text, the second one takes off the front of it
with more behind. -/
def Keeps {α : Type} (more : Text) (f f' : Reader α) : Prop :=
  ∀ ⦃t a rest⦄, f t = .ok (a, rest) → f' (t ++ more) = .ok (a, rest ++ more)

namespace Keeps

variable {α β : Type} {more : Text} {e : CodePoint} {f f' : Reader α}

theorem error {failure : Failure} : Keeps more (fun _ => .error failure) f' := nofun

theorem done (a : α) : Keeps more (fun t => .ok (a, t)) fun t => .ok (a, t) := by
  rintro t _ _ ⟨⟩
  rfl

theorem bind {k k' : α × Text → Except Failure (β × Text)} (hf : Keeps more f f')
    (hk : ∀ a, Keeps more (fun rest => k (a, rest)) fun rest => k' (a, rest)) :
    Keeps more (fun t => f t >>= k) fun t => f' t >>= k' := by
  intro t b rest h
  obtain ⟨⟨a, behind⟩, ha, h⟩ := exists_of_bind_eq_ok h
  dsimp only
  rw [hf ha]
  exact hk a h

theorem ite {p : Prop} {_ : Decidable p} {g g' : Reader α} (hf : Keeps more f f')
    (hg : Keeps more g g') :
    Keeps more (fun t => if p then f t else g t) fun t => if p then f' t else g' t := by
  intro t a rest h
  dsimp only at h ⊢
  split at h
  · next hp => exact (if_pos hp).trans (hf h)
  · next hp => exact (if_neg hp).trans (hg h)

theorem skip (he : e ∈ follows) (hf : Keeps (e :: more) f f') :
    Keeps (e :: more) (fun t => f (skipBlanks t)) fun t => f' (skipBlanks t) := by
  intro t a rest h
  dsimp only
  rw [skipBlanks_append he]
  exact hf h

theorem again (c : CodePoint) (hf : Keeps more f f') :
    Keeps more (fun t => f (c :: t)) fun t => f' (c :: t) :=
  fun _ _ _ h => hf h

/-- A reader that looks at the code point in front first. -/
theorem first {g g' : CodePoint → Reader α} (hg : ∀ c, Keeps more (g c) (g' c)) :
    Keeps more (fun t => match t with | [] => .error .badJson | c :: rest => g c rest)
      fun t => match t with | [] => .error .badJson | c :: rest => g' c rest := by
  intro t a rest h
  cases t with
  | nil => cases h
  | cons c t => exact hg c h

end Keeps

theorem keeps_text (more : Text) : Keeps more text text := fun _ _ _ h => text_append h more

section

variable {e : CodePoint} (he : e ∈ follows) {more : Text} {bound bound' : Nat}

include he

/-- A number or a word that begins with a code point. -/
theorem keeps_plain (c : CodePoint) :
    Keeps (e :: more)
      (fun t => match word? (c :: t) with
        | some result => .ok result
        | none => if c = '-' then number true t else number false (c :: t))
      fun t => match word? (c :: t) with
        | some result => .ok result
        | none => if c = '-' then number true t else number false (c :: t) := by
  intro t v rest h
  dsimp only at h ⊢
  rw [← List.cons_append, word?_append he, number_append he, number_append he]
  cases hword : word? (c :: t) with
  | some r =>
    rw [hword] at h
    cases h
    rfl
  | none =>
    simp only [hword, Option.map_none] at h ⊢
    split at h
    · next hminus => rw [if_pos hminus, h]; rfl
    · next hminus => rw [if_neg hminus, h]; rfl

theorem keeps_value (hitems : Keeps (e :: more) (items bound) (items bound'))
    (hmembers : Keeps (e :: more) (members bound) (members bound')) :
    Keeps (e :: more) (value (bound + 1)) (value (bound' + 1)) := by
  have hfirst : ∀ c, Keeps (e :: more) (fun t => value (bound + 1) (c :: t))
      fun t => value (bound' + 1) (c :: t) := by
    intro c
    simp only [value]
    refine .ite (.bind (keeps_text _) fun s => .done (Value.text s))
      (.ite ?array (.ite ?object (keeps_plain he c)))
    case array =>
      refine .skip he (.first fun d => .ite (.done (Value.array [])) ?_)
      exact .bind (.again d hitems) fun vs => .done (Value.array vs)
    case object =>
      refine .skip he (.first fun d => .ite (.done (Value.record [])) ?_)
      exact .bind (.again d hmembers) fun es => .done (Value.ofEntries es)
  intro t v rest h
  cases t with
  | nil => cases h
  | cons c t => exact hfirst c h

theorem keeps_items (hvalue : Keeps (e :: more) (value bound) (value bound'))
    (hitems : Keeps (e :: more) (items bound) (items bound')) :
    Keeps (e :: more) (items (bound + 1)) (items (bound' + 1)) := by
  refine .bind hvalue fun v => ?_
  refine .skip he (.first fun c => ?_)
  refine .ite (.done [v]) (.ite ?_ .error)
  exact .bind (.skip he hitems) fun vs => .done _

theorem keeps_members (hvalue : Keeps (e :: more) (value bound) (value bound'))
    (hmembers : Keeps (e :: more) (members bound) (members bound')) :
    Keeps (e :: more) (members (bound + 1)) (members (bound' + 1)) := by
  refine .first fun q => ?_
  refine .ite (.bind (keeps_text _) fun name => ?_) .error
  refine .skip he (.first fun colon => ?_)
  refine .ite (.bind (.skip he hvalue) fun v => ?_) .error
  refine .skip he (.first fun c => ?_)
  refine .ite (.done _) (.ite ?_ .error)
  exact .bind (.skip he hmembers) fun es => .done _

/-- **What is read off the front of a text** is read off it in front of more, too, and with a
larger bound. -/
theorem keeps (hbound : bound ≤ bound') :
    Keeps (e :: more) (value bound) (value bound') ∧
      Keeps (e :: more) (items bound) (items bound') ∧
      Keeps (e :: more) (members bound) (members bound') := by
  induction bound generalizing bound' with
  | zero => exact ⟨nofun, nofun, nofun⟩
  | succ bound ih =>
    cases bound' with
    | zero => exact absurd hbound (Nat.not_succ_le_zero bound)
    | succ bound' =>
      -- What is inside of a value is read with both bounds one less.
      obtain ⟨hvalue, hitems, hmembers⟩ := ih (Nat.le_of_succ_le_succ hbound)
      exact ⟨keeps_value he hitems hmembers, keeps_items he hvalue hitems,
        keeps_members he hvalue hmembers⟩

end

/-! ### Pieces of an object -/

/-- What is JSON by itself is read as the same inside of an object, up to what follows it. -/
theorem exists_value_of_parse {e : CodePoint} (he : e ∈ follows) {t : Text} {v : Value}
    (h : parse t = .ok v) {bound : Nat} (hbound : t.length < bound) (more : Text) :
    ∃ rest, value bound (skipBlanks (t ++ e :: more)) = .ok (v, rest) ∧
      skipBlanks rest = e :: more := by
  obtain ⟨⟨v', rest⟩, hvalue, h⟩ := exists_of_bind_eq_ok h
  dsimp only at h
  split at h
  · next hblanks =>
    cases h
    refine ⟨rest ++ e :: more, ?_, ?_⟩
    · rw [skipBlanks_append he]
      exact (keeps he hbound).1 hvalue
    · rw [skipBlanks_append he, List.isEmpty_iff.mp hblanks, List.nil_append]
  · cases h

theorem number_ne_text (negative : Bool) (t s rest : Text) :
    number negative t ≠ .ok (.text s, rest) := by
  rw [number]
  generalize (if t.head? = some ('0' : CodePoint) then (t.take 1, t.drop 1) else digits t) = r
  obtain ⟨whole, behind⟩ := r
  dsimp only
  by_cases hwhole : whole = []
  · rw [if_pos hwhole]
    exact nofun
  rw [if_neg hwhole]
  cases fraction? behind with
  | none =>
    cases exponent? behind with
    | none =>
      dsimp only
      rw [if_pos rfl]
      split <;> exact nofun
    | some r => exact nofun
  | some r => cases exponent? r.2 <;> exact nofun

theorem word?_ne_text (t s rest : Text) : word? t ≠ some (.text s, rest) := by
  have hwords : ∀ w ∈ words, ∀ s, w.2 ≠ .text s := by
    simp [words]
  intro h
  obtain ⟨w, hw, hsome⟩ := List.exists_of_findSome?_eq_some h
  obtain ⟨_, -, heq⟩ := Option.map_eq_some_iff.mp hsome
  exact hwords w hw s (congrArg Prod.fst heq)

/-- Only what begins with a quote is read as a text. -/
theorem exists_of_value_eq_text {bound : Nat} {t s rest : Text}
    (h : value bound t = .ok (.text s, rest)) :
    ∃ inside, t = ('"' : CodePoint) :: inside ∧ text inside = .ok (s, rest) := by
  cases bound with
  | zero => cases h
  | succ bound =>
    cases t with
    | nil => cases h
    | cons c t =>
      rw [value] at h
      split at h
      · next hquote =>
        obtain ⟨⟨s', rest'⟩, hs, h⟩ := exists_of_bind_eq_ok h
        cases h
        exact ⟨t, by rw [hquote], hs⟩
      -- Neither is an array a text, nor an object, a word or a number.
      split at h
      · split at h
        · cases h
        split at h
        · cases h
        · obtain ⟨⟨vs, rest'⟩, -, h⟩ := exists_of_bind_eq_ok h
          cases h
      split at h
      · split at h
        · cases h
        split at h
        · cases h
        · obtain ⟨⟨es, rest'⟩, -, h⟩ := exists_of_bind_eq_ok h
          cases h
      split at h
      · next r hword =>
        cases h
        exact absurd hword (word?_ne_text _ _ _)
      · split at h <;> exact absurd h (number_ne_text _ _ _ _)

theorem exists_text_of_parse {e : CodePoint} (he : e ∈ follows) {t s : Text}
    (h : parse t = .ok (.text s)) (more : Text) :
    ∃ inside rest, skipBlanks (t ++ e :: more) = ('"' : CodePoint) :: inside ∧
      text inside = .ok (s, rest) ∧ skipBlanks rest = e :: more := by
  obtain ⟨rest, hvalue, hrest⟩ := exists_value_of_parse he h (Nat.lt_succ_self _) more
  obtain ⟨inside, hinside, htext⟩ := exists_of_value_eq_text hvalue
  exact ⟨inside, rest, hinside, htext, hrest⟩

/-- The name and the value of a member, each of which is JSON by itself, spell an entry. -/
def Spells (m : Text × Text) (en : Entry Value) : Prop :=
  parse m.1 = .ok (.text en.name) ∧ parse m.2 = .ok en.value

/-- The text of a member. -/
def memberText (m : Text × Text) : Text := m.1 ++ (':' : CodePoint) :: m.2

/-- The text of an object with these members. -/
def objectText (ms : List (Text × Text)) : Text :=
  ('\x7b' : CodePoint) :: (Text.join "," (ms.map memberText) ++ [('\x7d' : CodePoint)])

theorem members_memberText {m : Text × Text} {en : Entry Value} (hm : Spells m en) {bound : Nat}
    (hbound : m.2.length < bound) {c : CodePoint} (hc : c ∈ follows) (more : Text) :
    members (bound + 1) (skipBlanks (memberText m ++ c :: more)) =
      if c = '\x7d' then .ok ([en], more)
      else if c = ',' then (members bound (skipBlanks more)).map fun r => (en :: r.1, r.2)
      else .error .badJson := by
  obtain ⟨inside, rest, hinside, htext, hrest⟩ :=
    exists_text_of_parse (e := ':') (by decide) hm.1 (m.2 ++ c :: more)
  obtain ⟨behind, hvalue, hbehind⟩ := exists_value_of_parse hc hm.2 hbound more
  rw [memberText, List.append_assoc, List.cons_append, hinside, members, if_pos rfl, htext]
  simp only [bind, Except.bind, hrest, hvalue, hbehind, ↓reduceIte]
  split
  · rfl
  split
  · cases members bound (skipBlanks more) <;> rfl
  · rfl

/-- **The members of an object** are read one by one, up to its closing bracket. -/
theorem members_of_spells {ms : List (Text × Text)} {es : List (Entry Value)}
    (h : List.Forall₂ Spells ms es) (hne : ms ≠ []) {bound : Nat}
    (hbound : (Text.join "," (ms.map memberText)).length < bound) (more : Text) :
    members bound (skipBlanks (Text.join "," (ms.map memberText) ++ ('\x7d' : CodePoint) :: more)) =
      .ok (es, more) := by
  induction h generalizing bound with
  | nil => exact absurd rfl hne
  | @cons m en ms es hm hms ih =>
    -- The bound is one less behind each member, and a member is longer than that.
    obtain ⟨bound, rfl⟩ : ∃ b, bound = b + 1 := Nat.exists_eq_add_one.mpr (by omega)
    cases ms with
    | nil =>
      cases hms
      have hjoin : Text.join "," ([m].map memberText) = memberText m := List.append_nil _
      rw [hjoin] at hbound ⊢
      rw [memberText, List.length_append, List.length_cons] at hbound
      rw [members_memberText hm (by omega) (by decide), if_pos rfl]
    | cons m' ms =>
      have hjoin : Text.join "," ((m :: m' :: ms).map memberText) =
          memberText m ++ (',' : CodePoint) :: Text.join "," ((m' :: ms).map memberText) := rfl
      have hcomma : ¬(',' : CodePoint) = '\x7d' := by decide
      rw [hjoin, memberText, List.length_append, List.length_append, List.length_cons,
        List.length_cons] at hbound
      rw [hjoin, List.append_assoc, List.cons_append,
        members_memberText hm (by omega) (by decide), if_neg hcomma, if_pos rfl,
        ih (List.cons_ne_nil _ _) (by omega)]
      rfl

/-- Members begin with a quote. -/
theorem exists_of_members_eq_ok {bound : Nat} {t rest : Text} {es : List (Entry Value)}
    (h : members bound t = .ok (es, rest)) : ∃ inside, t = ('"' : CodePoint) :: inside := by
  cases bound with
  | zero => cases h
  | succ bound =>
    cases t with
    | nil => cases h
    | cons c t =>
      rw [members] at h
      split at h
      · next hquote => exact ⟨t, by rw [hquote]⟩
      · cases h

/-- An object with members is read as its members are. -/
theorem parse_objectText_eq {ms : List (Text × Text)} {inside : Text}
    (h : skipBlanks (Text.join "," (ms.map memberText) ++ [('\x7d' : CodePoint)]) =
      ('"' : CodePoint) :: inside) :
    parse (objectText ms) =
      (members ((Text.join "," (ms.map memberText)).length + 2) (('"' : CodePoint) :: inside) >>=
        fun r => if (skipBlanks r.2).isEmpty then .ok (.ofEntries r.1) else .error .badJson) := by
  have hopening : ∀ t, skipBlanks (('\x7b' : CodePoint) :: t) = ('\x7b' : CodePoint) :: t :=
    fun t => List.dropWhile_cons_of_neg (by decide)
  have hquote : ¬('\x7b' : CodePoint) = '"' := by decide
  have harray : ¬('\x7b' : CodePoint) = '[' := by decide
  have hclosing : ¬('"' : CodePoint) = '\x7d' := by decide
  rw [parse, objectText, hopening, List.length_cons, value, if_neg hquote, if_neg harray,
    if_pos rfl, h, List.length_append, List.length_singleton]
  dsimp only
  rw [if_neg hclosing]
  cases members ((Text.join "," (ms.map memberText)).length + 2) (('"' : CodePoint) :: inside) <;>
    rfl

/-- **An object is put together from pieces**: the text of an object with members that spell
entries is read as the record of the entries. -/
theorem parse_objectText {ms : List (Text × Text)} {es : List (Entry Value)}
    (h : List.Forall₂ Spells ms es) : parse (objectText ms) = .ok (.ofEntries es) := by
  cases h with
  | nil => rfl
  | @cons m en ms es hm hms =>
    have hmembers := members_of_spells (.cons hm hms) (List.cons_ne_nil m ms)
      (Nat.lt_add_of_pos_right (k := 2) (by decide)) []
    obtain ⟨inside, hinside⟩ := exists_of_members_eq_ok hmembers
    rw [parse_objectText_eq hinside, ← hinside, hmembers]
    rfl

/-- **An object fails as the value of its first member does**, if the name is in order. -/
theorem parse_objectText_of_error {m : Text × Text} {ms : List (Text × Text)} {name : Text}
    {failure : Failure} (hname : parse m.1 = .ok (.text name))
    (hvalue : ∀ bound, ∀ e ∈ follows, ∀ more,
      value (bound + 1) (skipBlanks (m.2 ++ e :: more)) = .error failure) :
    parse (objectText (m :: ms)) = .error failure := by
  obtain ⟨c, hc, more, hjoin⟩ : ∃ c ∈ follows, ∃ more,
      Text.join "," ((m :: ms).map memberText) ++ [('\x7d' : CodePoint)] =
        memberText m ++ c :: more := by
    cases ms with
    | nil => exact ⟨'\x7d', by decide, [], congrArg (· ++ _) (List.append_nil _)⟩
    | cons m' ms => exact ⟨',', by decide, _, List.append_assoc (memberText m) _ _⟩
  obtain ⟨inside, rest, hinside, htext, hrest⟩ :=
    exists_text_of_parse (e := ':') (by decide) hname (m.2 ++ c :: more)
  have hfront : skipBlanks (Text.join "," ((m :: ms).map memberText) ++ [('\x7d' : CodePoint)]) =
      ('"' : CodePoint) :: inside := by
    rw [hjoin, memberText, List.append_assoc, List.cons_append, hinside]
  rw [parse_objectText_eq hfront, members, if_pos rfl, htext]
  simp only [bind, Except.bind, hrest, hvalue _ c hc more, ↓reduceIte]

/-- A text between quotes is JSON by itself, with blanks around it. -/
theorem parse_quoted {s : Text} (hs : ∀ c ∈ s, c.isSurrogate = false) {before behind : Text}
    (hbefore : ∀ c ∈ before, isBlank c = true) (hbehind : ∀ c ∈ behind, isBlank c = true) :
    parse (before ++ (quoted s ++ behind)) = .ok (.text s) := by
  have hquoted : quoted s ++ behind =
      ('"' : CodePoint) :: (s.flatMap escaped ++ ('"' : CodePoint) :: behind) :=
    congrArg (('"' : CodePoint) :: ·) (List.append_assoc _ _ behind)
  have hskip : skipBlanks (before ++ (quoted s ++ behind)) = quoted s ++ behind := by
    rw [skipBlanks, List.dropWhile_append_of_pos hbefore, hquoted]
    exact List.dropWhile_cons_of_neg (by decide)
  have hrest : (skipBlanks behind).isEmpty = true :=
    List.isEmpty_iff.mpr (List.dropWhile_eq_nil_iff.mpr hbehind)
  rw [parse, hskip, hquoted, value, if_pos rfl, text_quoted hs]
  exact if_pos hrest

theorem parse_quoted_behind {s : Text} (hs : ∀ c ∈ s, c.isSurrogate = false) {before : Text}
    (hbefore : ∀ c ∈ before, isBlank c = true) : parse (before ++ quoted s) = .ok (.text s) := by
  have h : parse (before ++ (quoted s ++ [])) = .ok (.text s) := parse_quoted hs hbefore nofun
  rwa [List.append_nil] at h

end TypedMemory.Json
