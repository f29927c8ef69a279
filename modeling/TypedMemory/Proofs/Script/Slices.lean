import TypedMemory.Proofs.Script.Stream

/-!
# Parsing slices is parsing tokens

A script is read twice: as a whole, when its tokens are found, and then span by span, each from its
slice of the script and in context. The two readings agree. What the parser takes from a slice are
the tokens of the span, and what it refuses is refused for the same cause at the same place
(`TypedMemory.Parser.parseSpan_eq`). So the statements of a script are those that its tokens make
(`TypedMemory.Statement.parse_eq`), and what comes behind may go by tokens alone.

In context a lexeme is read for another kind than by the scanner, or not in its length, in three
cases only, and what the parser does on it is the same. A word with a meaning of its own is taken
for a name where it has no such meaning. A number is never read in part, for where one kind of
number is admitted all are. And the first half of a double `=` is taken by itself where only that
is admitted: then an expression follows, which the second half does not begin. For this the parser
has to be one that goes by its tokens (`TypedMemory.Parser.GoesByTokens`).
-/

namespace TypedMemory

/-! ### Places -/

/-- The place inside of a text, where that text has another in front. -/
theorem Position.inside_following (front t : Text) :
    (following t).inside (following front) = following (front ++ t) := by
  induction t using List.reverseRecOn with
  | nil =>
    rw [List.append_nil]
    exact congrArg₂ mk (Nat.add_sub_cancel _ 1) (Nat.add_sub_cancel _ 1)
  | append_singleton t c ih =>
    have hafter (p first : Position) (hline : 1 ≤ p.line) (hcolumn : 1 ≤ p.column) :
        (p.after c).inside first = (p.inside first).after c := by
      by_cases hc : c = '\n'
      · simp only [after, inside, if_pos hc, mk.injEq]
        exact ⟨by omega, by rw [if_neg (by omega)]⟩
      · simp only [after, inside, if_neg hc, mk.injEq, true_and]
        split <;> omega
    have hstep (u : Text) : following (u ++ [c]) = (following u).after c :=
      (behind_following u [c]).symm
    rw [hstep, hafter _ _ (Nat.le_add_right 1 _) (Nat.le_add_right 1 _), ih, ← List.append_assoc,
      hstep]

/-! ### What is read in context -/

namespace Token

variable {c : CodePoint} {rest : Text} {kind : TokenKind} {length : Nat}
  {admits : TokenKind → Bool}

theorem lexemeAmong?_of_admits (h : lexeme? c rest = some (some kind, length))
    (hkind : admits kind = true) :
    lexemeAmong? admits c rest = some (some kind, length) := by
  rw [lexemeAmong?, h]
  exact if_pos hkind

theorem lexemeAmong?_of_otherwise? {other : TokenKind} {n : Nat}
    (h : lexeme? c rest = some (some kind, length)) (hkind : admits kind = false)
    (hother : otherwise? kind rest length = some (other, n)) :
    lexemeAmong? admits c rest = if admits other then some (some other, n) else none := by
  rw [lexemeAmong?, h]
  dsimp only
  rw [if_neg (by rw [hkind]; nofun), hother]

theorem lexemeAmong?_eq_none (h : lexeme? c rest = some (some kind, length))
    (hkind : admits kind = false)
    (hother : ∀ other n, otherwise? kind rest length = some (other, n) → admits other = false) :
    lexemeAmong? admits c rest = none := by
  cases hfound : otherwise? kind rest length with
  | none =>
    rw [lexemeAmong?, h]
    dsimp only
    rw [if_neg (by rw [hkind]; nofun), hfound]
  | some found =>
    rw [lexemeAmong?_of_otherwise? h hkind hfound, hother _ _ hfound]
    rfl

theorem lexemeAmong?_of_none (h : lexeme? c rest = some (none, length)) :
    lexemeAmong? admits c rest = some (none, length) := by
  rw [lexemeAmong?, h]

/-- What is not read for its own kind is a word that is a name, a part of a number, or a half. -/
theorem of_otherwise? {other : TokenKind} {n : Nat}
    (h : otherwise? kind rest length = some (other, n)) : (kind.isWord = true ∧ other = .name) ∨
      ((kind = .hexNumber ∨ kind = .decimal) ∧ other = .int) ∨
        (kind = .equal ∧ other = .assign) := by
  cases kind <;> cases h <;> simp [TokenKind.isWord]

theorem otherwise?_of_isWord (h : kind.isWord = true) :
    kind = .name ∨ ∀ rest length, otherwise? kind rest length = some (.name, length) := by
  cases kind <;> first | exact .inl rfl | exact .inr fun _ _ => rfl | cases h

/-- What a sign of equality begins. -/
theorem lexeme?_equals (rest : Text) : lexeme? '=' rest =
    if rest.head? = some ('=' : CodePoint) then some (some .equal, 1)
    else some (some .assign, 0) := by
  rw [lexeme?_of_symbol ⟨by decide, by decide, by decide⟩, symbolShape?]
  cases rest with
  | nil => rfl
  | cons d rest =>
    rw [List.head?_cons, Option.bind_some]
    by_cases hd : d = '='
    · subst hd
      rfl
    · have hequal : ∀ s ∈ doubleSymbols, s.1.1 = '=' → s.1.2 = '=' := by decide
      have hlookup : doubleSymbols.lookup (('=' : CodePoint), d) = none := by
        refine List.lookup_eq_none_iff.mpr fun s hs => bne_iff_ne.mpr ?_
        rintro heq
        exact hd ((congrArg Prod.snd heq).trans (hequal s hs (congrArg Prod.fst heq).symm))
      rw [hlookup, if_neg fun h => hd (Option.some.inj h)]
      rfl

/-- Nothing else begins with one. -/
theorem eq_equals (h : lexeme? c rest = some (some kind, length))
    (hkind : kind = .assign ∨ kind = .equal) : c = '=' := by
  have hsymbols : ∀ s ∈ symbols, s.2 = .assign ∨ s.2 = .equal → s.1 = '=' := by decide
  have hdoubles : ∀ s ∈ doubleSymbols, s.2 = .assign ∨ s.2 = .equal → s.1.1 = '=' := by decide
  rcases isValue_or_symbolShape h with ⟨hvalue, -⟩ | hshape
  · rcases hkind with rfl | rfl <;> cases hvalue
  · rcases mem_of_symbolShape? hshape with ⟨d, -, hmem⟩ | ⟨-, hmem⟩
    · exact hdoubles _ hmem hkind
    · exact hsymbols _ hmem hkind

theorem le_offset_of_mem_tokensBehind {front : Text} {lexemes : List Lexeme} :
    ∀ k ∈ tokensBehind front lexemes, front.length ≤ k.offset := by
  intro k hk
  obtain ⟨before, after, hsplit⟩ := List.mem_iff_append.mp hk
  obtain ⟨a, -, -, -, -, -, -, hoffset, -⟩ := exists_of_tokensBehind hsplit
  rw [hoffset, List.length_append]
  exact Nat.le_add_right _ _

/-- **The second half of a double `=`** is what the scanner finds there. -/
theorem text_secondHalf {front : Text} {lexemes : List Lexeme} (h : Cuts [] lexemes) {t : Token}
    (ht : t.offset + 2 = front.length) : (t.secondHalf (tokensBehind front lexemes)).text =
      if (joined lexemes).head? = some ('=' : CodePoint) then Text.of "==" else Text.of "=" := by
  cases h with
  | nil => rfl
  | @cons l more first rest =>
    obtain ⟨c, u, length, hall, hfound, htext, -⟩ := exists_of_isLongest first
    obtain ⟨kind?, text⟩ := l
    rw [List.append_nil] at hall
    rw [hall, List.head?_cons]
    cases kind? with
    | some kind =>
      have hkind : c = '=' ↔ kind = .assign ∨ kind = .equal := by
        refine ⟨?_, eq_equals hfound⟩
        rintro rfl
        rw [lexeme?_equals] at hfound
        split at hfound <;> cases hfound <;> simp
      rw [tokensBehind]
      simp [secondHalf, ht, hkind]
    | none =>
      have hne : c ≠ '=' := by
        rintro rfl
        rw [lexeme?_equals] at hfound
        split at hfound <;> cases hfound
      rw [tokensBehind, if_neg fun h => hne (Option.some.inj h)]
      cases htokens : tokensBehind (front ++ text) more with
      | nil => rfl
      | cons k after =>
        have hoffset := le_offset_of_mem_tokensBehind k (htokens ▸ List.mem_cons_self)
        have hlater : k.offset ≠ t.offset + 2 := by
          dsimp only at htext
          rw [htext, List.length_append, List.length_cons] at hoffset
          omega
        simp [secondHalf, hlater]

end Token

/-! ### Parsers that go by tokens -/

/-- **A parser goes by its tokens** if where they stand is of no account, and if what is admitted
in context does not tell a token from what the scanner takes: where a token is not admitted there
is no move on it, but for words where a name is admitted, which are names there; where a number is
admitted all are; and behind a single `=` that is admitted no other can stand. -/
structure Parser.GoesByTokens {σ ρ : Type} (p : Parser σ ρ) : Prop where
  step_eq : ∀ s {t t' : Token}, t.kind = t'.kind → t.text = t'.text → p.step s t = p.step s t'
  step_eq_none : ∀ s t, p.admits s t.kind = false →
    (t.kind.isWord = true → p.admits s .name = false) → p.step s t = none
  step_word : ∀ s t, p.admits s t.kind = false → t.kind.isWord = true →
    p.admits s .name = true → p.step s { t with kind := .name } = p.step s t
  numbers : ∀ s, p.admits s .int = true →
    p.admits s .hexNumber = true ∧ p.admits s .decimal = true
  equals : ∀ s, p.admits s .assign = true → p.admits s .equal = false ∧ ∀ t, t.kind = .assign →
    ∃ s', p.step s t = some s' ∧ p.admits s' .assign = false ∧ p.admits s' .equal = false

namespace Parser

variable {σ ρ : Type} {p : Parser σ ρ} {s : σ} {last position : Position} {offset : Nat}
  {c : CodePoint} {rest : Text} {kind : TokenKind} {length : Nat}

/-- Blanks and comments are passed over. -/
theorem read_of_none (h : Token.lexeme? c rest = some (none, length)) :
    p.read s last position offset (c :: rest) =
      p.read s last (position.behind (c :: rest.take length))
        (offset + (c :: rest.take length).length) (rest.drop length) := by
  rw [read, Token.lexemeAmong?_of_none h]

/-- What is not admitted is refused as what the scanner finds. -/
theorem read_of_not_admits (h : Token.lexeme? c rest = some (some kind, length))
    (hnone : Token.lexemeAmong? (p.admits s) c rest = none) :
    p.read s last position offset (c :: rest) = unexpected (c :: rest.take length) position := by
  rw [read, hnone]
  dsimp only
  rw [h]

/-- A token for which there is no move is refused, but for a double `=`. -/
theorem run_cons {t : Token} (hequal : ¬(t.kind = .equal ∧ p.admits s .assign = true))
    (rest : List Token) : p.run s last (t :: rest) = match p.step s t with
      | some s => p.run s t.position rest
      | none => unexpected t.text t.position := by
  cases hmove : p.step s t with
  | some s => simp only [run, hmove]
  | none => simp only [run, hmove, refused, if_neg hequal]

namespace GoesByTokens

variable (hp : p.GoesByTokens)

include hp

/-- A token is read in context for what moves the parser as it does, or there is nothing that is
admitted and no move. -/
theorem lexemeAmong? (h : Token.lexeme? c rest = some (some kind, length))
    (hequal : ¬(kind = .equal ∧ p.admits s .assign = true)) (t : Text) :
    (∃ found, Token.lexemeAmong? (p.admits s) c rest = some (some found, length) ∧
      p.step s ⟨found, t, position, offset⟩ = p.step s ⟨kind, t, position, offset⟩) ∨
    (Token.lexemeAmong? (p.admits s) c rest = none ∧
      p.step s ⟨kind, t, position, offset⟩ = none) := by
  cases hkind : p.admits s kind with
  | true => exact .inl ⟨kind, Token.lexemeAmong?_of_admits h hkind, rfl⟩
  | false =>
    by_cases hname : kind.isWord = true ∧ p.admits s .name = true
    · obtain ⟨hword, hname⟩ := hname
      have hother : Token.otherwise? kind rest length = some (.name, length) := by
        rcases Token.otherwise?_of_isWord hword with rfl | hother
        · cases hkind.symm.trans hname
        · exact hother rest length
      refine .inl ⟨.name, ?_, hp.step_word s ⟨kind, t, position, offset⟩ hkind hword hname⟩
      rw [Token.lexemeAmong?_of_otherwise? h hkind hother, if_pos hname]
    · have hname (hword : kind.isWord = true) : p.admits s .name = false :=
        eq_false_of_ne_true fun hadmits => hname ⟨hword, hadmits⟩
      refine .inr ⟨Token.lexemeAmong?_eq_none h hkind fun other n hother => ?_,
        hp.step_eq_none s ⟨kind, t, position, offset⟩ hkind hname⟩
      rcases Token.of_otherwise? hother with ⟨hword, rfl⟩ | ⟨hnumber, rfl⟩ | ⟨rfl, rfl⟩
      · exact hname hword
      · refine eq_false_of_ne_true fun hint => ?_
        obtain ⟨hhex, hdecimal⟩ := hp.numbers s hint
        rcases hnumber with rfl | rfl
        · cases hkind.symm.trans hhex
        · cases hkind.symm.trans hdecimal
      · exact eq_false_of_ne_true fun hassign => hequal ⟨rfl, hassign⟩

/-- **What the scanner takes** the parser takes, unless it is a double `=` and only its first half
is admitted. -/
theorem read_of_some (h : Token.lexeme? c rest = some (some kind, length))
    (hequal : ¬(kind = .equal ∧ p.admits s .assign = true)) :
    p.read s last position offset (c :: rest) =
      match p.step s ⟨kind, c :: rest.take length, position, offset⟩ with
      | some s => p.read s position (position.behind (c :: rest.take length))
          (offset + (c :: rest.take length).length) (rest.drop length)
      | none => unexpected (c :: rest.take length) position := by
  rcases hp.lexemeAmong? h hequal (c :: rest.take length) with
    ⟨found, hfound, hstep⟩ | ⟨hnone, hstep⟩
  · rw [read, hfound]
    cases hmove : p.step s ⟨kind, c :: rest.take length, position, offset⟩ with
    | some s => simp only [hstep.trans hmove]
    | none => simp only [hstep.trans hmove]
  · rw [read_of_not_admits h hnone, hstep]

/-- A double `=` where only its first half is admitted is refused at the second. -/
theorem read_of_equal (hassign : p.admits s .assign = true) (rest : Text) :
    p.read s last position offset ('=' :: '=' :: rest) =
      unexpected (if rest.head? = some ('=' : CodePoint) then Text.of "==" else Text.of "=")
        (position.after '=') := by
  obtain ⟨hequal, hmove⟩ := hp.equals s hassign
  have hfirst : Token.lexemeAmong? (p.admits s) '=' ('=' :: rest) = some (some .assign, 0) := by
    rw [Token.lexemeAmong?_of_otherwise? (Token.lexeme?_equals _) hequal rfl, if_pos hassign]
  obtain ⟨s', hstep, hassign', hequal'⟩ := hmove ⟨.assign, ['='], position, offset⟩ rfl
  have hsecond := Token.lexeme?_equals rest
  rw [read, hfirst]
  dsimp only [List.take_zero, List.drop_zero]
  rw [hstep]
  dsimp only
  split at hsecond
  · next hhead =>
    rw [if_pos hhead]
    obtain ⟨more, rfl⟩ := List.head?_eq_some_iff.mp hhead
    refine read_of_not_admits hsecond (Token.lexemeAmong?_eq_none hsecond hequal' ?_)
    rintro other n ⟨⟩
    exact hassign'
  · next hhead =>
    rw [if_neg hhead]
    refine read_of_not_admits hsecond (Token.lexemeAmong?_eq_none hsecond hassign' ?_)
    rintro other n ⟨⟩

theorem run_of_equal (hassign : p.admits s .assign = true) {t : Token} (ht : t.kind = .equal)
    (rest : List Token) : p.run s last (t :: rest) =
      unexpected (t.secondHalf rest).text (t.secondHalf rest).position := by
  have hnone : p.step s t = none := hp.step_eq_none s t (by rw [ht, (hp.equals s hassign).1])
    fun hword => by rw [ht] at hword; cases hword
  rw [run, hnone, refused, if_pos ⟨ht, hassign⟩]

/-- A double `=` where only its first half is admitted is refused alike, read or taken. -/
theorem read_joined_of_equal (hassign : p.admits s .assign = true) {lexemes : List Token.Lexeme}
    (h : Token.Cuts [] lexemes) (front t : Text) (last' : Position) :
    (p.read s last (.following t) t.length ('=' :: '=' :: Token.joined lexemes)).mapError
      (Error.inside (.following front)) =
      p.run s last' (⟨.equal, ['=', '='], .following (front ++ t), (front ++ t).length⟩ ::
        Token.tokensBehind (front ++ t ++ (['=', '='] : Text)) lexemes) := by
  have hafter (v : Text) : (Position.following v).after '=' =
      .following (v ++ [('=' : CodePoint)]) := Position.behind_following v ['=']
  have hplace : ((Position.following t).after '=').inside (.following front) =
      (Position.following (front ++ t)).after '=' := by
    rw [hafter, hafter, Position.inside_following, List.append_assoc]
  have hlength : (front ++ t ++ (['=', '='] : Text)).length = (front ++ t).length + 2 :=
    List.length_append
  rw [hp.read_of_equal hassign, hp.run_of_equal hassign rfl, Token.text_secondHalf h hlength.symm]
  exact congrArg (unexpected _) hplace

/-- **Reading lexemes is taking their tokens.** What is in front of the text counts only for the
places. -/
theorem read_joined {lexemes : List Token.Lexeme} (h : Token.Cuts [] lexemes) (front t : Text)
    (s : σ) (last : Position) :
    (p.read s last (.following t) t.length (Token.joined lexemes)).mapError
      (Error.inside (.following front)) =
      p.run s (last.inside (.following front)) (Token.tokensBehind (front ++ t) lexemes) := by
  induction h generalizing t s last with
  | nil =>
    rw [Token.joined, List.flatMap_nil, read, Token.tokensBehind, run, finish, finish]
    cases p.result? s <;> rfl
  | @cons l more first rest ih =>
    obtain ⟨c, u, length, hall, hfound, htext, hdrop⟩ := Token.exists_of_isLongest first
    obtain ⟨kind?, text⟩ := l
    rw [List.append_nil] at hall hdrop
    dsimp only at hfound htext
    rw [hall, Token.tokensBehind]
    cases kind? with
    | none =>
      rw [read_of_none hfound, ← htext, hdrop, Position.behind_following, ← List.length_append, ih,
        List.append_assoc]
    | some kind =>
      dsimp only
      by_cases hequal : kind = .equal ∧ p.admits s .assign = true
      · obtain ⟨rfl, hassign⟩ := hequal
        obtain rfl := Token.eq_equals hfound (.inr rfl)
        obtain ⟨rfl, hu⟩ : length = 1 ∧ u.head? = some ('=' : CodePoint) := by
          rw [Token.lexeme?_equals] at hfound
          split at hfound
          · next hu => exact ⟨(Prod.mk.inj (Option.some.inj hfound)).2.symm, hu⟩
          · cases hfound
        obtain ⟨v, rfl⟩ := List.head?_eq_some_iff.mp hu
        obtain rfl : v = Token.joined more := hdrop
        rw [htext]
        exact hp.read_joined_of_equal hassign rest front t _
      · have hstep : p.step s ⟨kind, text, .following (front ++ t), (front ++ t).length⟩ =
            p.step s ⟨kind, text, .following t, t.length⟩ := hp.step_eq s rfl rfl
        rw [hp.read_of_some hfound hequal, ← htext, hdrop, Position.behind_following,
          ← List.length_append, run_cons hequal, hstep]
        cases p.step s ⟨kind, text, .following t, t.length⟩ with
        | some s' =>
          dsimp only
          rw [ih, Position.inside_following, List.append_assoc]
        | none => exact congrArg (unexpected text) (Position.inside_following front t)

/-- **Parsing a span of a script is parsing its tokens.** -/
theorem parseSpan_eq {t : Text} {before after rest : List Token} {first : Token}
    (h : Token.scan t = .ok (before ++ first :: rest ++ after)) :
    p.parseSpan t first rest = p.parseTokens first rest := by
  have hlast : (first :: rest).getLast? =
      some ((first :: rest).getLast (List.cons_ne_nil first rest)) :=
    List.getLast?_eq_some_getLast _
  obtain ⟨front, lexemes, hslice, hcuts, htokens, hplace⟩ :=
    Token.exists_cuts_slice h rfl hlast
  have hread := hp.read_joined hcuts front [] p.start .start
  have hstart : Position.start.inside (.following front) = .following front := by
    rw [show Position.start = .following [] from rfl, Position.inside_following, List.append_nil]
  rw [List.append_nil, htokens, hstart, ← hplace, ← hslice] at hread
  exact hread

end GoesByTokens

end Parser

/-! ### The parsers of scripts -/

namespace Expr.State

variable {stack : List Frame} {t : Token}

theorem stepOperand_eq_none {opened : Bool} (h : beginsOperand t.kind = false)
    (hclose : (opened && closesEmpty stack t.kind) = false) (hword : t.kind ≠ .letWord) :
    stepOperand stack opened t = none := by
  obtain ⟨kind, text, position, offset⟩ := t
  cases kind with
  | rightParen | rightBracket =>
    rcases opened with _ | _
    · rfl
    rcases stack with _ | ⟨frame, stack⟩
    · rfl
    cases frame with
    | arguments callee items => cases items <;> first | rfl | cases hclose
    | array items => cases items <;> first | rfl | cases hclose
    | _ => rfl
  | letWord => exact absurd rfl hword
  | _ => first | rfl | cases h

theorem stepBehind_eq_none {v : Expr} {callee : Option Callee} (h : followsOperand t.kind = false)
    (hcall : (callee.isSome && decide (t.kind = .leftParen)) = false) :
    stepBehind stack v callee t = none := by
  obtain ⟨kind, text, position, offset⟩ := t
  cases kind with
  | leftParen =>
    cases callee with
    | none => rfl
    | some callee => cases hcall
  | _ => first | rfl | cases h

theorem step_eq_none {s : State} (h : s.admits t.kind = false)
    (hname : t.kind.isWord = true → s.admits .name = false) : s.step t = none := by
  obtain ⟨stack, mode⟩ := s
  cases mode with
  | operand opened =>
    obtain ⟨hbegins, hclose⟩ := Bool.or_eq_false_iff.mp h
    exact stepOperand_eq_none hbegins hclose fun hword => by cases hname (by rw [hword]; rfl)
  | behind v callee =>
    obtain ⟨hfollows, hcall⟩ := Bool.or_eq_false_iff.mp h
    exact stepBehind_eq_none hfollows hcall
  | member target =>
    have hword : ¬t.kind.isWord = true := fun hword => by cases hname hword
    exact if_neg hword
  | entryName entries opened =>
    obtain ⟨-, hclose⟩ := Bool.or_eq_false_iff.mp h
    have hword : ¬t.kind.isWord = true := fun hword => by cases hname hword
    have hclose : ¬(opened = true ∧ t.kind = .rightBrace) := by simpa using hclose
    exact (if_neg hword).trans (if_neg hclose)
  | colon entries name => exact if_neg (of_decide_eq_false h)

theorem step_word {s : State} (h : s.admits t.kind = false) (hword : t.kind.isWord = true)
    (hname : s.admits .name = true) : s.step { t with kind := .name } = s.step t := by
  obtain ⟨stack, mode⟩ := s
  obtain ⟨kind, text, position, offset⟩ := t
  cases mode with
  | behind v callee => cases callee <;> cases hname
  | colon entries name => cases hname
  | _ => cases kind <;> first | rfl | (cases hword; done) | cases h

/-- Where a number is admitted all are. -/
theorem admits_numbers {s : State} (h : s.admits .int = true) :
    s.admits .hexNumber = true ∧ s.admits .decimal = true := by
  obtain ⟨stack, mode⟩ := s
  cases mode with
  | operand opened => exact ⟨rfl, rfl⟩
  | behind v callee => cases callee <;> cases h
  | entryName entries opened => cases opened <;> cases h
  | _ => cases h

/-- A binding is no part of an expression. -/
theorem admits_assign (s : State) : s.admits .assign = false := by
  obtain ⟨stack, mode⟩ := s
  cases mode with
  | operand opened =>
    have hclose : closesEmpty stack .assign = false := by
      rw [closesEmpty.eq_def]
      split <;> first | rfl | contradiction
    change (beginsOperand .assign || (opened && closesEmpty stack .assign)) = false
    rw [hclose, Bool.and_false]
    rfl
  | behind v callee => cases callee <;> rfl
  | entryName entries opened => cases opened <;> rfl
  | _ => rfl

end Expr.State

/-- **The parser of expressions** goes by its tokens. -/
theorem Expr.goesByTokens_parser : Expr.parser.GoesByTokens where
  step_eq s t t' hkind htext := by
    obtain ⟨stack, mode⟩ := s
    change State.step _ t = State.step _ t'
    cases mode <;>
      simp only [State.step, State.stepOperand, State.stepBehind, hkind, htext]
  step_eq_none _ _ := State.step_eq_none
  step_word _ _ := State.step_word
  numbers _ := State.admits_numbers
  equals s h := nomatch s.admits_assign.symm.trans h

/-- **The parser of statements** goes by its tokens. -/
theorem Statement.goesByTokens_parser : Statement.parser.GoesByTokens where
  step_eq s t t' hkind htext := by
    have hstep (s : Expr.State) : s.step t = s.step t' :=
      Expr.goesByTokens_parser.step_eq s hkind htext
    change State.step s t = State.step s t'
    cases s <;> simp only [State.step, hstep, hkind, htext]
  step_eq_none s t h hname := by
    cases s with
    | start =>
      obtain ⟨hlet, hexpr⟩ := Bool.or_eq_false_iff.mp h
      have hnone : Expr.State.initial.step t = none :=
        Expr.State.step_eq_none hexpr fun hword => nomatch hname hword
      change (if t.kind = .letWord then _ else _) = none
      rw [if_neg (of_decide_eq_false hlet), hnone]
      rfl
    | word => exact if_neg fun hword => nomatch hname hword
    | named name => exact if_neg (of_decide_eq_false h)
    | value name? s => exact congrArg (Option.map _) (Expr.State.step_eq_none h hname)
  step_word s t h hword hname := by
    obtain ⟨kind, text, position, offset⟩ := t
    cases s with
    | start => cases kind <;> first | (cases hword; done) | cases h
    | word => exact (if_pos hword).symm
    | named name => cases hname
    | value name? s => exact congrArg (Option.map _) (Expr.State.step_word h hword hname)
  numbers s h := by
    cases s with
    | start => exact ⟨rfl, rfl⟩
    | value name? s => exact Expr.State.admits_numbers h
    | _ => cases h
  equals s h := by
    cases s with
    | named name => exact ⟨rfl, fun t ht => ⟨_, if_pos ht, rfl, rfl⟩⟩
    | value name? s => exact nomatch s.admits_assign.symm.trans h
    | _ => cases h

end TypedMemory
