import Mathlib.Data.List.Induction
import TypedMemory.Proofs.Script.Lexemes

/-!
# A script and its tokens

Scanning a text is to **cut** it into lexemes from left to right, each the longest at its place
(`TypedMemory.Token.Cuts`), until the text is at its end or no lexeme begins
(`TypedMemory.Token.exists_cuts`). All that the scanner does follows from this, and of cutting
itself three things have to be known. The texts of the lexemes put together are the text again, so
nothing is lost, and a token stands behind the text of all lexemes before it. What is no token is a
blank or a comment, and a comment is as long as it can be. And with less text behind it a lexeme
has fewer rivals, so it stays the longest: lexemes that follow each other are cut in the same way
where they stand alone (`TypedMemory.Token.Cuts.middle`).

The statements of a script are parsed from slices of it, and this last is what they rely on.
-/

namespace TypedMemory

/-! ### Places -/

/-- Where the text behind a text stands: a line further down for each line feed, and a column
further for each code point on the line. -/
def Position.following (t : Text) : Position :=
  ⟨1 + t.count ('\n' : CodePoint), 1 + (t.reverse.takeWhile (· ≠ ('\n' : CodePoint))).length⟩

theorem Position.behind_start (t : Text) : start.behind t = following t := by
  induction t using List.reverseRecOn with
  | nil => rfl
  | append_singleton t c ih =>
    rw [behind_append, ih, following, following, List.count_append, List.reverse_concat]
    by_cases hc : c = '\n'
    · subst hc
      rw [List.takeWhile_cons_of_neg (by decide)]
      rfl
    · rw [List.takeWhile_cons_of_pos (by exact decide_eq_true hc), List.length_cons,
        List.count_singleton, if_neg (by simpa using hc)]
      exact if_neg hc

theorem Position.behind_following (front t : Text) :
    (following front).behind t = following (front ++ t) := by
  rw [← behind_start, ← behind_start, behind_append]

namespace Token

/-- What a token is, apart from where it stands. -/
def spelling (t : Token) : TokenKind × Text := (t.kind, t.text)

/-! ### Cutting a text into lexemes -/

/-- A piece of a text: a token of some kind, or a blank or a comment, of no kind. -/
structure Lexeme where
  kind? : Option TokenKind
  text : Text

/-- The texts of lexemes put together. -/
def joined (lexemes : List Lexeme) : Text := lexemes.flatMap Lexeme.text

theorem joined_cons (l : Lexeme) (more : List Lexeme) :
    joined (l :: more) = l.text ++ joined more := List.flatMap_cons

theorem joined_singleton (l : Lexeme) : joined [l] = l.text := List.flatMap_singleton _ _

theorem joined_append (a b : List Lexeme) : joined (a ++ b) = joined a ++ joined b :=
  List.flatMap_append

/-- **The lexemes are cut** from left to right in front of a text: each is the longest at its
place. -/
inductive Cuts (behind : Text) : List Lexeme → Prop
  | nil : Cuts behind []
  | cons {l : Lexeme} {more : List Lexeme}
      (first : IsLongest l.kind? l.text (joined (l :: more) ++ behind)) (rest : Cuts behind more) :
      Cuts behind (l :: more)

/-- No lexeme begins the text. -/
def IsStuck (t : Text) : Prop := ∀ kind? u, IsLexeme kind? u → ¬u <+: t

/-- **The tokens among lexemes** that stand behind a text. -/
def tokensBehind (front : Text) : List Lexeme → List Token
  | [] => []
  | l :: more =>
    match l.kind? with
    | none => tokensBehind (front ++ l.text) more
    | some kind =>
      ⟨kind, l.text, .following front, front.length⟩ :: tokensBehind (front ++ l.text) more

theorem isStuck_nil : IsStuck [] := fun _ _ hlexeme hbegins =>
  hlexeme.ne_nil (List.prefix_nil.mp hbegins)

/-- **Every text is cut** into lexemes, until it is at its end or none begins. -/
theorem exists_cuts (t : Text) :
    ∃ lexemes behind, t = joined lexemes ++ behind ∧ Cuts behind lexemes ∧ IsStuck behind := by
  match t with
  | [] => exact ⟨[], [], rfl, .nil, isStuck_nil⟩
  | c :: rest =>
    cases hfound : lexeme? c rest with
    | none => exact ⟨[], c :: rest, rfl, .nil, lexeme?_eq_none_iff.mp hfound⟩
    | some found =>
      obtain ⟨kind?, length⟩ := found
      obtain ⟨lexemes, behind, htext, hcuts, hstuck⟩ := exists_cuts (rest.drop length)
      have hall : c :: rest = joined (⟨kind?, c :: rest.take length⟩ :: lexemes) ++ behind := by
        rw [joined_cons, List.append_assoc, ← htext, List.cons_append, List.take_append_drop]
      refine ⟨⟨kind?, c :: rest.take length⟩ :: lexemes, behind, hall, .cons ?_ hcuts, hstuck⟩
      rw [← hall]
      exact isLongest_iff.mpr ⟨length, hfound, rfl⟩
termination_by t.length
decreasing_by simp only [List.length_drop, List.length_cons]; omega

/-- The first of the lexemes is what the scanner takes, and the others are behind it. -/
theorem exists_of_isLongest {l : Lexeme} {more : List Lexeme} {behind : Text}
    (h : IsLongest l.kind? l.text (joined (l :: more) ++ behind)) :
    ∃ c rest length, joined (l :: more) ++ behind = c :: rest ∧
      lexeme? c rest = some (l.kind?, length) ∧ l.text = c :: rest.take length ∧
      rest.drop length = joined more ++ behind := by
  obtain ⟨c, u, htext⟩ := List.exists_cons_of_ne_nil h.isLexeme.ne_nil
  have hall : joined (l :: more) ++ behind = c :: (u ++ (joined more ++ behind)) := by
    rw [joined_cons, htext, List.append_assoc, List.cons_append]
  rw [hall] at h
  obtain ⟨length, hfound, htaken⟩ := isLongest_iff.mp h
  refine ⟨c, _, length, hall, hfound, htaken, ?_⟩
  have hsplit := List.take_append_drop length (u ++ (joined more ++ behind))
  rw [← (List.cons.inj (htext.symm.trans htaken)).2] at hsplit
  exact List.append_cancel_left hsplit

/-- The scanner goes over what is cut. -/
theorem scanFrom_joined {lexemes : List Lexeme} {behind : Text} (h : Cuts behind lexemes)
    (front : Text) : scanFrom (.following front) front.length (joined lexemes ++ behind) =
      (scanFrom (.following (front ++ joined lexemes)) (front ++ joined lexemes).length behind).map
        (tokensBehind front lexemes ++ ·) := by
  induction h generalizing front with
  | nil =>
    rw [joined, List.flatMap_nil, List.append_nil, List.nil_append]
    cases scanFrom (.following front) front.length behind <;> rfl
  | @cons l more first rest ih =>
    obtain ⟨kind?, text⟩ := l
    obtain ⟨c, u, length, hall, hfound, htext, hdrop⟩ := exists_of_isLongest first
    rw [hall, scanFrom, hfound]
    dsimp only at htext ⊢
    rw [← htext, hdrop, Position.behind_following, ← List.length_append, ih, joined_cons,
      List.append_assoc, tokensBehind]
    cases scanFrom (.following (front ++ (text ++ joined more)))
      (front ++ (text ++ joined more)).length behind <;> cases kind? <;> rfl

/-- With no lexeme to begin it, a text has tokens only if there is none of it. -/
theorem scanFrom_of_isStuck {t : Text} (h : IsStuck t) (position : Position) (offset : Nat) :
    scanFrom position offset t = match t with
      | [] => .ok []
      | c :: _ => .error (.parse (.unexpectedCharacter c) (some position)) := by
  cases t with
  | nil => rw [scanFrom]
  | cons c rest =>
    rw [scanFrom, lexeme?_eq_none_iff.mpr h]
    rfl

/-- What the scanner comes to, by how the text is cut. -/
theorem scan_joined {lexemes : List Lexeme} {behind : Text} (h : Cuts behind lexemes)
    (hstuck : IsStuck behind) : scan (joined lexemes ++ behind) = match behind with
      | [] => .ok (tokensBehind [] lexemes)
      | c :: _ =>
        .error (.parse (.unexpectedCharacter c) (some (.following (joined lexemes)))) := by
  have hscan := scanFrom_joined h []
  rw [scanFrom_of_isStuck hstuck, List.nil_append] at hscan
  refine Eq.trans hscan ?_
  cases behind with
  | nil => exact congrArg Except.ok (List.append_nil _)
  | cons c rest => rfl

/-- **The tokens of a text** are those among the lexemes that it is cut into. -/
theorem scan_eq_ok_iff {t : Text} {tokens : List Token} : scan t = .ok tokens ↔
    ∃ lexemes, t = joined lexemes ∧ Cuts [] lexemes ∧ tokens = tokensBehind [] lexemes := by
  constructor
  · intro h
    obtain ⟨lexemes, behind, rfl, hcuts, hstuck⟩ := exists_cuts t
    rw [scan_joined hcuts hstuck] at h
    cases behind with
    | nil => exact ⟨lexemes, List.append_nil _, hcuts, (Except.ok.inj h).symm⟩
    | cons c rest => cases h
  · rintro ⟨lexemes, rfl, hcuts, rfl⟩
    have hscan := scan_joined hcuts isStuck_nil
    rwa [List.append_nil] at hscan

/-- **Where there are no tokens** the text is cut up to a code point at which no lexeme begins. -/
theorem scan_eq_error_iff {t : Text} {e : Error} : scan t = .error e ↔
    ∃ lexemes c rest, t = joined lexemes ++ c :: rest ∧ Cuts (c :: rest) lexemes ∧
      IsStuck (c :: rest) ∧
      e = .parse (.unexpectedCharacter c) (some (.following (joined lexemes))) := by
  constructor
  · intro h
    obtain ⟨lexemes, behind, rfl, hcuts, hstuck⟩ := exists_cuts t
    rw [scan_joined hcuts hstuck] at h
    cases behind with
    | nil => cases h
    | cons c rest => exact ⟨lexemes, c, rest, rfl, hcuts, hstuck, (Except.error.inj h).symm⟩
  · rintro ⟨lexemes, c, rest, rfl, hcuts, hstuck, rfl⟩
    exact scan_joined hcuts hstuck

/-! ### What stands between tokens -/

/-- **Blanks and comments**, in front of a text: a comment goes on to the end of its line or of the
text. -/
inductive IsSpacing (behind : Text) : Text → Prop
  | nil : IsSpacing behind []
  | blank {c : CodePoint} {gap : Text} (mem : c ∈ blanks) (more : IsSpacing behind gap) :
      IsSpacing behind (c :: gap)
  | comment {t gap : Text} (feed : ('\n' : CodePoint) ∉ t)
      (ends : ∀ c ∈ (gap ++ behind).head?, c = '\n') (more : IsSpacing behind gap) :
      IsSpacing behind ('/' :: '/' :: (t ++ gap))

/-- **Where tokens stand** in a text that is behind another one: each after some spacing, at the
place that it tells, and the next one behind it. -/
inductive Stand : Text → List Token → Text → Prop
  | last {front gap : Text} (spacing : IsSpacing [] gap) : Stand front [] gap
  | token {front gap t : Text} {k : Token} {more : List Token}
      (spacing : IsSpacing (k.text ++ t) gap) (position : k.position = .following (front ++ gap))
      (offset : k.offset = (front ++ gap).length) (rest : Stand (front ++ gap ++ k.text) more t) :
      Stand front (k :: more) (gap ++ (k.text ++ t))

/-- A token with nothing in front. -/
theorem Stand.next {front t : Text} {k : Token} {more : List Token}
    (position : k.position = .following front) (offset : k.offset = front.length)
    (rest : Stand (front ++ k.text) more t) : Stand front (k :: more) (k.text ++ t) := by
  rw [← List.append_nil front] at position offset rest
  exact .token .nil position offset rest

/-- What is put in front of tokens, if it is spacing wherever what they have in front is. -/
theorem Stand.skip {front u t : Text} {tokens : List Token} (h : Stand (front ++ u) tokens t)
    (hu : ∀ gap behind, t = gap ++ behind → IsSpacing behind gap → IsSpacing behind (u ++ gap)) :
    Stand front tokens (u ++ t) := by
  cases h with
  | last spacing => exact .last (hu _ _ (List.append_nil _).symm spacing)
  | token spacing position offset rest =>
    rw [← List.append_assoc u]
    rw [List.append_assoc front] at position offset rest
    exact .token (hu _ _ rfl spacing) position offset rest

/-- A comment that is cut is as long as it can be. -/
theorem IsLongest.head?_eq {t behind : Text} (feed : ('\n' : CodePoint) ∉ t)
    (h : IsLongest none ('/' :: '/' :: t) ('/' :: '/' :: (t ++ behind))) :
    ∀ c ∈ behind.head?, c = '\n' := by
  intro c hc
  by_contra hne
  obtain ⟨rest, rfl⟩ := List.head?_eq_some_iff.mp hc
  have hlonger : IsLexeme none ('/' :: '/' :: (t ++ [c])) := .comment fun hmem => by
    rcases List.mem_append.mp hmem with hmem | hmem
    · exact feed hmem
    · exact hne (List.mem_singleton.mp hmem).symm
  have hle : (t ++ [c]).length + 2 ≤ t.length + 2 := h.longest none _ hlonger ⟨rest, by simp⟩
  rw [List.length_append, List.length_singleton] at hle
  omega

/-- **The tokens among lexemes** stand in the text of the lexemes. -/
theorem Cuts.stand {lexemes : List Lexeme} (h : Cuts [] lexemes) (front : Text) :
    Stand front (tokensBehind front lexemes) (joined lexemes) := by
  induction h generalizing front with
  | nil => exact .last .nil
  | @cons l more first rest ih =>
    obtain ⟨kind?, text⟩ := l
    rw [joined_cons, List.append_nil] at first
    rw [joined_cons]
    cases kind? with
    | some kind => exact .next rfl rfl (ih _)
    | none =>
      refine (ih (front ++ text)).skip fun gap behind htext hspacing => ?_
      rw [htext] at first
      cases first.isLexeme with
      | blank mem => exact .blank mem hspacing
      | comment feed => exact .comment feed (first.head?_eq feed) hspacing

/-! ### Slices -/

/-- With less text behind it the longest lexeme stays the longest. -/
theorem IsLongest.of_begins {kind? : Option TokenKind} {u t t' : Text} (h : IsLongest kind? u t)
    (hu : u <+: t') (ht : t' <+: t) : IsLongest kind? u t' :=
  ⟨h.isLexeme, hu, fun other? other hother hbegins =>
    h.longest other? other hother (hbegins.trans ht)⟩

theorem Cuts.of_begins {behind behind' : Text} {lexemes : List Lexeme} (h : Cuts behind lexemes)
    (hbehind : behind' <+: behind) : Cuts behind' lexemes := by
  induction h with
  | nil => exact .nil
  | @cons l more first rest ih =>
    refine .cons (first.of_begins ?_ ?_) ih
    · rw [joined_cons, List.append_assoc]
      exact List.prefix_append _ _
    · exact (List.prefix_append_right_inj _).mpr hbehind

/-- **Lexemes that follow each other** are cut in the same way where they stand alone. -/
theorem Cuts.middle {a b c : List Lexeme} {behind : Text} (h : Cuts behind (a ++ (b ++ c))) :
    Cuts [] b := by
  have hsuffix : ∀ {a b : List Lexeme}, Cuts behind (a ++ b) → Cuts behind b := by
    intro a b h
    induction a with
    | nil => exact h
    | cons l a ih =>
      cases h with
      | cons first rest => exact ih rest
  have hfront : ∀ {b : List Lexeme}, Cuts behind (b ++ c) → Cuts (joined c ++ behind) b := by
    intro b h
    induction b with
    | nil => exact .nil
    | cons l b ih =>
      cases h with
      | cons first rest =>
        refine .cons ?_ (ih rest)
        rwa [← List.append_assoc, ← joined_append]
  exact (hfront (hsuffix h)).of_begins List.nil_prefix

theorem tokensBehind_append (front : Text) (a b : List Lexeme) :
    tokensBehind front (a ++ b) =
      tokensBehind front a ++ tokensBehind (front ++ joined a) b := by
  induction a generalizing front with
  | nil => rw [joined, List.flatMap_nil, List.append_nil]; rfl
  | cons l a ih =>
    rw [List.cons_append, tokensBehind, tokensBehind, joined_cons, ← List.append_assoc]
    cases l.kind? <;> simp [ih]

/-- What tokens are, apart from where they stand, does not depend on what is in front. -/
theorem map_spelling_tokensBehind (front front' : Text) (lexemes : List Lexeme) :
    (tokensBehind front lexemes).map spelling = (tokensBehind front' lexemes).map spelling := by
  induction lexemes generalizing front front' with
  | nil => rfl
  | cons l more ih =>
    rw [tokensBehind, tokensBehind]
    cases l.kind? with
    | none => exact ih _ _
    | some kind => exact congrArg (_ :: ·) (ih _ _)

/-- Each token is one of the lexemes, with the tokens before it and behind it on either side. -/
theorem exists_of_tokensBehind {front : Text} {lexemes : List Lexeme} {before after : List Token}
    {k : Token} (h : tokensBehind front lexemes = before ++ k :: after) :
    ∃ a l b, lexemes = a ++ l :: b ∧ tokensBehind front a = before ∧
      tokensBehind (front ++ joined a) (l :: b) = k :: after ∧
      tokensBehind (front ++ joined a) [l] = [k] ∧ k.offset = (front ++ joined a).length ∧
      k.text = l.text := by
  induction lexemes generalizing front before with
  | nil =>
    rw [tokensBehind] at h
    cases before <;> cases h
  | cons x more ih =>
    have hstep : ∀ {before' : List Token},
        tokensBehind (front ++ x.text) more = before' ++ k :: after →
        tokensBehind front [x] ++ before' = before →
        ∃ a l b, x :: more = a ++ l :: b ∧ tokensBehind front a = before ∧
          tokensBehind (front ++ joined a) (l :: b) = k :: after ∧
          tokensBehind (front ++ joined a) [l] = [k] ∧ k.offset = (front ++ joined a).length ∧
          k.text = l.text := by
      intro before' hmore hbefore
      obtain ⟨a, l, b, rfl, hfront, hrest⟩ := ih hmore
      refine ⟨x :: a, l, b, rfl, ?_, ?_⟩
      · rw [← List.singleton_append, tokensBehind_append, joined_singleton, hfront, hbefore]
      · rwa [joined_cons, ← List.append_assoc]
    obtain ⟨kind?, text⟩ := x
    cases kind? with
    | none => exact hstep h rfl
    | some kind =>
      cases before with
      | nil =>
        obtain ⟨rfl, hafter⟩ := List.cons.inj h
        refine ⟨[], ⟨some kind, text⟩, more, rfl, rfl, ?_⟩
        rw [joined, List.flatMap_nil, List.append_nil]
        exact ⟨h, rfl, rfl, rfl⟩
      | cons k' before' =>
        obtain ⟨rfl, hmore⟩ := List.cons.inj h
        exact hstep hmore rfl

/-- Tokens in front are those among some lexemes in front, which end where the last token does. -/
theorem exists_of_getLast? {front : Text} {lexemes : List Lexeme} {run after : List Token}
    {last : Token} (h : tokensBehind front lexemes = run ++ after)
    (hlast : run.getLast? = some last) :
    ∃ a b, lexemes = a ++ b ∧ tokensBehind front a = run ∧
      last.offset + last.text.length = (front ++ joined a).length := by
  obtain ⟨init, rfl⟩ := List.getLast?_eq_some_iff.mp hlast
  rw [List.append_assoc, List.singleton_append] at h
  obtain ⟨a, l, b, rfl, hinit, -, hlast', hoffset, htext⟩ := exists_of_tokensBehind h
  refine ⟨a ++ [l], b, by simp, by rw [tokensBehind_append, hinit, hlast'], ?_⟩
  rw [hoffset, htext, joined_append, joined_singleton, ← List.append_assoc]
  exact List.length_append.symm

/-- **A slice of a text** from the first to the last of tokens that follow each other is cut into
lexemes by itself, and the tokens are those among them. -/
theorem exists_cuts_slice {t : Text} {before run after : List Token} {first last : Token}
    (h : scan t = .ok (before ++ run ++ after)) (hfirst : run.head? = some first)
    (hlast : run.getLast? = some last) :
    ∃ front lexemes, slice t first last = joined lexemes ∧ Cuts [] lexemes ∧
      tokensBehind front lexemes = run ∧ first.position = .following front := by
  obtain ⟨lexemes, rfl, hcuts, htokens⟩ := scan_eq_ok_iff.mp h
  obtain ⟨more, rfl⟩ := List.head?_eq_some_iff.mp hfirst
  rw [List.append_assoc] at htokens
  obtain ⟨a, l, b, rfl, -, hrun, hsingle, hoffset, -⟩ := exists_of_tokensBehind htokens.symm
  obtain ⟨c, d, hsplit, hc, hend⟩ := exists_of_getLast? hrun hlast
  rw [hsplit] at hcuts ⊢
  refine ⟨[] ++ joined a, c, ?_, hcuts.middle, hc, ?_⟩
  · rw [slice, hend, hoffset, List.nil_append, List.length_append, Nat.add_sub_cancel_left,
      joined_append, joined_append, List.drop_left, List.take_left]
  · rw [tokensBehind] at hsingle
    split at hsingle
    · cases hsingle
    · exact (congrArg position (List.cons.inj hsingle).1).symm

/-- **Slices have their tokens**: tokens that follow each other are, apart from where they stand,
the tokens of the text from the first of them to the last. -/
theorem scan_slice {t : Text} {before run after : List Token} {first last : Token}
    (h : scan t = .ok (before ++ run ++ after)) (hfirst : run.head? = some first)
    (hlast : run.getLast? = some last) :
    ∃ tokens, scan (slice t first last) = .ok tokens ∧
      tokens.map spelling = run.map spelling := by
  obtain ⟨front, lexemes, hslice, hcuts, rfl, -⟩ := exists_cuts_slice h hfirst hlast
  exact ⟨_, scan_eq_ok_iff.mpr ⟨lexemes, hslice, hcuts, rfl⟩, map_spelling_tokensBehind _ _ _⟩

/-- **The tokens of a text are exact.** There are tokens if the text can be cut into lexemes, each
the longest at its place, and then the tokens are those among the lexemes. They stand in the text in
order, each at the line and in the column that it tells, with nothing but blanks and comments before
the first, between any two and behind the last; and any that follow each other are, apart from
where they stand, the tokens of their slice of the text. Otherwise the text can be cut up to a code
point at which no lexeme begins, and the failure tells this code point with its line and column. -/
theorem scan_exact (t : Text) :
    (∀ tokens, scan t = .ok tokens ↔
      ∃ lexemes, t = joined lexemes ∧ Cuts [] lexemes ∧ tokens = tokensBehind [] lexemes) ∧
    (∀ tokens, scan t = .ok tokens → Stand [] tokens t ∧
      ∀ before run after first last, tokens = before ++ run ++ after → run.head? = some first →
        run.getLast? = some last → ∃ again, scan (slice t first last) = .ok again ∧
          again.map spelling = run.map spelling) ∧
    ∀ e, scan t = .error e ↔ ∃ lexemes c rest, t = joined lexemes ++ c :: rest ∧
      Cuts (c :: rest) lexemes ∧ IsStuck (c :: rest) ∧
      e = .parse (.unexpectedCharacter c) (some (.following (joined lexemes))) := by
  refine ⟨fun tokens => scan_eq_ok_iff, fun tokens h => ⟨?_, ?_⟩, fun e => scan_eq_error_iff⟩
  · obtain ⟨lexemes, rfl, hcuts, rfl⟩ := scan_eq_ok_iff.mp h
    exact hcuts.stand []
  · rintro before run after first last rfl hfirst hlast
    exact scan_slice h hfirst hlast

/-- Two slashes in a string, and a quote in a comment; and the same without the quote that closes
the string, which then begins nothing. -/
theorem scan_exact_quotes :
    let t : Text := "f(\"//\") //\"\n ==1.5"
    let u : Text := "f(\n \"//) //"
    (∃ tokens, scan t = .ok tokens ∧ Stand [] tokens t ∧ tokens.map position =
      [⟨1, 1⟩, ⟨1, 2⟩, ⟨1, 3⟩, ⟨1, 7⟩, ⟨2, 2⟩, ⟨2, 4⟩]) ∧
    ∃ lexemes rest, u = joined lexemes ++ ('"' : CodePoint) :: rest ∧ Cuts ('"' :: rest) lexemes ∧
      scan u = .error (.parse (.unexpectedCharacter '"') (some ⟨2, 2⟩)) := by
  intro t u
  constructor
  · have hpositions : (scan t).toOption.map (·.map position) =
        some [⟨1, 1⟩, ⟨1, 2⟩, ⟨1, 3⟩, ⟨1, 7⟩, ⟨2, 2⟩, ⟨2, 4⟩] := by decide +kernel
    obtain ⟨tokens, htokens, hpositions⟩ := Option.map_eq_some_iff.mp hpositions
    have hscan := eq_ok_of_toOption htokens
    exact ⟨tokens, hscan, ((scan_exact t).2.1 tokens hscan).1, hpositions⟩
  · have hfails : failure? (scan u) =
        some (.parse (.unexpectedCharacter '"') (some ⟨2, 2⟩)) := by decide +kernel
    have hscan := failure?_eq_some_iff.mp hfails
    obtain ⟨lexemes, c, rest, htext, hcuts, -, he⟩ := ((scan_exact u).2.2 _).mp hscan
    obtain ⟨hcause, -⟩ := Error.parse.inj he
    cases hcause
    exact ⟨lexemes, rest, htext, hcuts, hscan⟩

end Token

end TypedMemory
