import TypedMemory.Proofs.Script.Describing

/-!
# Every text has a literal

`TypedMemory.Text.literal` writes a text as a string literal: the quote and the backslash behind
a backslash, the two line ends and the NUL as escapes, and every other code point as it is. Four
readers then have to agree on what they are given, and each has rules of its own: the scanner,
which looks for the quote that ends a string; the comments, which begin at two slashes; the two
countings of brackets that part statements and end expressions; and the reading of escapes.

What the first of them sees is worked out point by point, in front of anything
(`TypedMemory.Text.stringLength?_literalPoint`), and so is what the last one gives
(`TypedMemory.Text.unescape?_literalPoint`). Since the whole literal is one token, no slash or
bracket in it is seen by the others, and they pass over it
(`TypedMemory.Token.runs_string`, `TypedMemory.Token.expressionSpan_string`).
`TypedMemory.Engine.run_literal` puts this together.
-/

namespace TypedMemory

namespace Text

/-! ### What is between the quotes -/

/-- How a code point is written between the quotes of a literal. -/
def literalPoint (c : CodePoint) : Text :=
  if c = '"' then "\\\""
  else if c = '\\' then "\\\\"
  else if c = '\n' then "\\n"
  else if c = '\r' then "\\r"
  else if c = '\x00' then "\\x00"
  else [c]

/-- **A literal for a text.** -/
def literal (s : Text) : Text :=
  ('"' : CodePoint) :: (s.flatMap literalPoint ++ [('"' : CodePoint)])

/-- Cases on how a code point is written: by one of the five escapes, or as it is. -/
theorem literalPoint_cases {motive : CodePoint → Text → Prop}
    (quote : motive '"' "\\\"") (backslash : motive '\\' "\\\\") (feed : motive '\n' "\\n")
    (carriage : motive '\r' "\\r") (nul : motive '\x00' "\\x00")
    (plain : ∀ c : CodePoint, c ≠ '"' → c ≠ '\\' → c ≠ '\n' → c ≠ '\r' → c ≠ '\x00' →
      motive c [c]) (c : CodePoint) : motive c (literalPoint c) := by
  rw [literalPoint]
  split
  · next hc => exact hc ▸ quote
  split
  · next hc => exact hc ▸ backslash
  split
  · next hc => exact hc ▸ feed
  split
  · next hc => exact hc ▸ carriage
  split
  · next hc => exact hc ▸ nul
  · exact plain c ‹_› ‹_› ‹_› ‹_› ‹_›

/-- What is written is a surrogate only where the text has one, and never a NUL. -/
theorem literalPoint_plain {c d : CodePoint} (hc : c.isSurrogate = false)
    (hd : d ∈ literalPoint c) : d.isSurrogate = false ∧ d.val ≠ 0 := by
  revert hc hd
  refine literalPoint_cases (motive := fun c t => c.isSurrogate = false → d ∈ t →
    d.isSurrogate = false ∧ d.val ≠ 0) ?quote ?backslash ?feed ?carriage ?nul ?plain c
  case plain =>
    intro c _ _ _ _ hnul hc hd
    obtain rfl := List.mem_singleton.mp hd
    refine ⟨hc, fun hval => hnul ?_⟩
    obtain ⟨n, hn⟩ := d
    obtain rfl : n = 0 := hval
    rfl
  all_goals
    intro _
    revert d
    decide

theorem literal_plain {s : Text} (hs : ∀ c ∈ s, c.isSurrogate = false) :
    ∀ d ∈ s.literal, d.isSurrogate = false ∧ d.val ≠ 0 := by
  have hquote : CodePoint.isSurrogate '"' = false ∧ (('"' : CodePoint)).val ≠ 0 := by decide
  rw [literal, List.forall_mem_cons, List.forall_mem_append, List.forall_mem_singleton]
  refine ⟨hquote, fun d hd => ?_, hquote⟩
  obtain ⟨c, hc, hd⟩ := List.mem_flatMap.mp hd
  exact literalPoint_plain (hs c hc) hd

/-! ### Escapes -/

section Escapes

variable [Host]

theorem unescape?_cons {c : CodePoint} (hreturn : c ≠ '\r') (hback : c ≠ '\\') (t : Text) :
    unescape? (c :: t) = (unescape? t).map (c :: ·) := by
  rw [unescape?, if_neg hreturn, if_neg hback]

theorem unescape?_escape {t out behind : Text} (h : escape? t = some (out, behind)) :
    unescape? (('\\' : CodePoint) :: t) = (unescape? behind).map (out ++ ·) := by
  have hreturn : ¬('\\' : CodePoint) = '\r' := by decide
  rw [unescape?, if_neg hreturn, if_pos rfl]
  split
  · next hnone => cases hnone.symm.trans h
  · next hsome =>
    cases hsome.symm.trans h
    rfl

/-- **What is written for a code point** is read as that code point. -/
theorem unescape?_literalPoint (c : CodePoint) (t : Text) :
    unescape? (literalPoint c ++ t) = (unescape? t).map (c :: ·) := by
  refine literalPoint_cases (motive := fun c u => unescape? (u ++ t) =
    (unescape? t).map (c :: ·)) ?quote ?backslash ?feed ?carriage ?nul ?plain c
  case plain => exact fun c _ hback _ hreturn _ => unescape?_cons hreturn hback t
  case quote => exact unescape?_escape (t := ('"' : CodePoint) :: t) rfl
  case backslash => exact unescape?_escape (t := ('\\' : CodePoint) :: t) rfl
  case feed => exact unescape?_escape (t := ('n' : CodePoint) :: t) rfl
  case carriage => exact unescape?_escape (t := ('r' : CodePoint) :: t) rfl
  case nul => exact unescape?_escape (t := ('x' : CodePoint) :: '0' :: '0' :: t) rfl

theorem unescape?_flatMap (s : Text) : unescape? (s.flatMap literalPoint) = some s := by
  induction s with
  | nil => rw [List.flatMap_nil, unescape?]
  | cons c s ih => rw [List.flatMap_cons, unescape?_literalPoint, ih, Option.map_some]

/-- **The value of the literal** for a text is the text. -/
theorem ofLiteral_literal {s : Text} (hs : ∀ c ∈ s, c.isSurrogate = false) :
    ofLiteral s.literal = .ok s := by
  have hplain := literal_plain hs
  have hsurrogate : s.literal.any CodePoint.isSurrogate = false :=
    List.any_eq_false.mpr fun d hd => by simp [(hplain d hd).1]
  have hnul : s.literal.any (·.val == 0) = false :=
    List.any_eq_false.mpr fun d hd => by simp [(hplain d hd).2]
  have hunquoted : s.literal.unquoted = s.flatMap literalPoint := by
    rw [literal, unquoted, List.drop_one, List.tail_cons, List.dropLast_concat]
  rw [ofLiteral, hsurrogate, hnul, hunquoted, unescape?_flatMap]
  rfl

end Escapes

/-! ### The end of a string -/

open Token (stringLength? stringLength?_quote stringLength?_backslash stringLength?_plain)

/-- **What is written for a code point** does not end a string. -/
theorem stringLength?_literalPoint (c : CodePoint) (t : Text) :
    stringLength? (literalPoint c ++ t) =
      (stringLength? t).map (· + (literalPoint c).length) := by
  refine literalPoint_cases (motive := fun _ u => stringLength? (u ++ t) =
    (stringLength? t).map (· + u.length)) ?quote ?backslash ?feed ?carriage ?nul ?plain c
  case plain =>
    exact fun c hquote hback hfeed _ _ => stringLength?_plain hquote hfeed hback t
  case nul =>
    have htext : ("\\x00" : Text) ++ t = ('\\' : CodePoint) :: ('x' : CodePoint) ::
        ('0' : CodePoint) :: ('0' : CodePoint) :: t := rfl
    have hzero : ∀ u, stringLength? (('0' : CodePoint) :: u) = (stringLength? u).map (· + 1) :=
      stringLength?_plain (by decide) (by decide) (by decide)
    rw [htext, stringLength?_backslash (by decide), hzero, hzero, Option.map_map, Option.map_map]
    rfl
  all_goals exact stringLength?_backslash (by decide) t

theorem stringLength?_flatMap (s behind : Text) :
    stringLength? (s.flatMap literalPoint ++ ('"' : CodePoint) :: behind) =
      some (s.flatMap literalPoint ++ [('"' : CodePoint)]).length := by
  induction s with
  | nil =>
    exact stringLength?_quote behind
  | cons c s ih =>
    have hlength : (literalPoint c ++ (s.flatMap literalPoint ++ [('"' : CodePoint)])).length =
        (literalPoint c).length + (s.flatMap literalPoint ++ [('"' : CodePoint)]).length :=
      List.length_append
    rw [List.flatMap_cons, List.append_assoc, stringLength?_literalPoint, ih, Option.map_some,
      List.append_assoc, hlength, Nat.add_comm]

end Text

namespace Token

/-- The token that the literal for a text is. -/
def ofText (s : Text) (position : Position) (offset : Nat) : Token :=
  ⟨.string, s.literal, position, offset⟩

/-- **A literal is one token**, whatever is behind it. -/
theorem Scans.literal (s : Text) (position : Position) (offset : Nat) (behind : Text) :
    Scans position offset s.literal [ofText s position offset] behind := by
  refine .single ?_
  have hslash : ¬(('"' : CodePoint) = '/') := by decide
  rw [List.append_assoc, List.singleton_append, lexeme?, if_neg (by decide),
    if_neg fun h => hslash h.1, if_neg (by decide), if_neg (by decide), if_pos rfl,
    Text.stringLength?_flatMap]
  rfl

/-! ### Statements and expressions around a string -/

/-- The tokens behind some others go on with the last of their runs. -/
theorem runs_append_of_eq {depth : Nat} {front back run run' : List Token}
    (before : List (List Token)) {more : List (List Token)}
    (hfront : runs depth front = before ++ [run])
    (hback : runs (depthBehind depth front) back = run' :: more) :
    runs depth (front ++ back) = before ++ (run ++ run') :: more := by
  induction front generalizing depth before run with
  | nil =>
    obtain ⟨rfl, rfl⟩ : before = [] ∧ run = [] := by
      cases before with
      | nil => exact ⟨rfl, (List.cons.inj hfront).1.symm⟩
      | cons r before => simp [runs] at hfront
    exact hback
  | cons t front ih =>
    rw [runs] at hfront
    rw [List.cons_append, runs]
    -- A token in front closes the first run, or is put at the front of it.
    split at hfront
    · next ht =>
      rw [if_pos ht]
      rw [depthBehind_cons, depthAfter_of_semicolon ht.1] at hback
      obtain ⟨-, rfl⟩ := ht
      cases before with
      | nil => exact absurd (List.cons.inj hfront).2 (runs_ne_nil 0 front)
      | cons b before =>
        obtain ⟨rfl, hrest⟩ := List.cons.inj hfront
        rw [ih _ hrest hback, List.cons_append]
    · next ht =>
      rw [if_neg ht]
      obtain ⟨r, rs, hruns⟩ := List.exists_cons_of_ne_nil (runs_ne_nil (t.depthAfter depth) front)
      rw [hruns] at hfront
      cases before with
      | nil =>
        obtain ⟨rfl, rfl⟩ := List.cons.inj hfront
        rw [ih [] hruns hback]
        rfl
      | cons b before =>
        obtain ⟨rfl, rfl⟩ := List.cons.inj hfront
        rw [ih (r :: before) hruns hback]
        rfl

theorem depthAfter_of_string {t : Token} (ht : t.kind = .string) (depth : Nat) :
    t.depthAfter depth = depth := by
  simp [depthAfter, ht, TokenKind.isOpener, TokenKind.isCloser]

/-- **A string parts no statements**: it stands in one of the runs that there are without it. -/
theorem runs_string {t : Token} (ht : t.kind = .string) (depth : Nat) (front back : List Token) :
    ∃ before run run' more,
      runs depth front = before ++ [run] ∧
      runs (depthBehind depth front) back = run' :: more ∧
      runs depth (front ++ back) = before ++ (run ++ run') :: more ∧
      runs depth (front ++ t :: back) = before ++ (run ++ t :: run') :: more := by
  obtain ⟨before, run, hfront⟩ :=
    (List.eq_nil_or_concat' (runs depth front)).resolve_left (runs_ne_nil depth front)
  obtain ⟨run', more, hback⟩ :=
    List.exists_cons_of_ne_nil (runs_ne_nil (depthBehind depth front) back)
  have hstring : runs (depthBehind depth front) (t :: back) = (t :: run') :: more := by
    rw [runs, if_neg (by simp [ht]), depthAfter_of_string ht, hback]
  exact ⟨before, run, run', more, hfront, hback, runs_append_of_eq _ hfront hback,
    runs_append_of_eq _ hfront hstring⟩

/-- An expression that is not over goes on with the tokens behind it. -/
theorem expressionSpan_append_of_nil {depth : Nat} {front : List Token}
    (h : (expressionSpan depth front).2 = []) (back : List Token) :
    expressionSpan depth (front ++ back) =
      (front ++ (expressionSpan (depthBehind depth front) back).1,
        (expressionSpan (depthBehind depth front) back).2) := by
  induction front generalizing depth with
  | nil => rfl
  | cons t front ih =>
    rw [expressionSpan] at h
    rw [List.cons_append, expressionSpan]
    split at h
    · cases h
    · next ht =>
      rw [if_neg ht, ih h]
      rfl

/-- **A string ends no expression**: one that is not over in front of it goes on over it just as
it would without it. -/
theorem expressionSpan_string {t : Token} (ht : t.kind = .string) {depth : Nat}
    {front : List Token} (h : (expressionSpan depth front).2 = []) (back : List Token) :
    ∃ inside behind,
      expressionSpan depth (front ++ back) = (front ++ inside, behind) ∧
      expressionSpan depth (front ++ t :: back) = (front ++ t :: inside, behind) := by
  refine ⟨_, _, expressionSpan_append_of_nil h back, ?_⟩
  have hgoes : ¬(depthBehind depth front = 0 ∧ t.kind.endsExpression = true) := by
    simp [ht, TokenKind.endsExpression, TokenKind.isCloser]
  rw [expressionSpan_append_of_nil h, expressionSpan, if_neg hgoes, depthAfter_of_string ht]

end Token

namespace Engine

open Grammar (Atom Expression)

/-- A literal is a script of one expression, whatever forms of statements there are. -/
theorem parse_literal (engine : Engine) (s : Text) :
    engine.parse s.literal = .ok [.expression (.string s.literal)] := by
  have hscan := (Token.Scans.literal s .start 0 []).scan
  have hone : ∀ front t back, [Token.ofText s .start 0] = front ++ t :: back →
      t.kind = .semicolon → Token.depthBehind 0 front ≠ 0 := by
    intro front t back h ht
    have hmem : t ∈ [Token.ofText s .start 0] := h ▸ List.mem_append_right front List.mem_cons_self
    rw [List.mem_singleton.mp hmem] at ht
    cases ht
  have hkind : (Token.ofText s .start 0).kind = .string := rfl
  have hform : Statement.form? engine.forms (Token.ofText s .start 0) = none := by
    rw [Statement.form?, hkind, if_neg (by decide)]
  let e : Expression := Atom.alone (.literal ⟨Token.ofText s .start 0, by simp [Token.ofText]⟩)
  have hlet : ∀ t ∈ e.tokens.head?, t.kind ≠ .letWord := by
    rintro _ ⟨⟩
    rw [hkind]
    decide
  exact engine.parse_of_derivation hscan hone hform (d := .expression e hlet) rfl

/-- A literal as an expression. -/
theorem eval_literal [Host] {s : Text} (hs : ∀ c ∈ s, c.isSurrogate = false) (options : Options)
    (scope : Scope) (m : Machine) :
    (Expr.string s.literal).eval options scope m = (.ok (.text s), m) := by
  rw [Expr.eval, Expr.stringValue, Text.ofLiteral_literal hs]
  rfl

/-- **Every text has a literal.** A text without surrogates is written as one token: it stands
behind the tokens before it, unless it is put into a comment, and does not hang on what is behind
it. No statement is parted at it and no expression ends at it. Its value is the text, as an
expression in any scope and as a script by itself, whatever forms of statements there are. -/
theorem run_literal [Host] {s : Text} (hs : ∀ c ∈ s, c.isSurrogate = false) :
    (∀ before behind tokens, Token.scan before = .ok tokens →
      Token.endsInComment before = false →
        Token.scan (before ++ (s.literal ++ behind)) =
          (Token.scanFrom (Position.start.behind (before ++ s.literal))
            (before ++ s.literal).length behind).map
              (tokens ++ Token.ofText s (Position.start.behind before) before.length :: ·)) ∧
    (∀ position offset, let t := Token.ofText s position offset
      (∀ depth front back, ∃ before run run' more,
        Token.runs depth front = before ++ [run] ∧
        Token.runs (Token.depthBehind depth front) back = run' :: more ∧
        Token.runs depth (front ++ back) = before ++ (run ++ run') :: more ∧
        Token.runs depth (front ++ t :: back) = before ++ (run ++ t :: run') :: more) ∧
      (∀ depth front back, (Token.expressionSpan depth front).2 = [] → ∃ inside behind,
        Token.expressionSpan depth (front ++ back) = (front ++ inside, behind) ∧
        Token.expressionSpan depth (front ++ t :: back) = (front ++ t :: inside, behind))) ∧
    (∀ options scope m, (Expr.string s.literal).eval options scope m = (.ok (.text s), m)) ∧
    ∀ (engine : Engine) scope m, engine.run s.literal scope m =
      (.ok (.text s, scope), { m with log := m.log ++ [.evaluating 1] }) := by
  refine ⟨fun before behind tokens hscan hends => ?_, fun position offset => ⟨?_, ?_⟩,
    eval_literal hs, fun engine scope =>
      run_of_parse (engine.parse_literal s) (eval_literal hs engine.options scope)⟩
  · have hfront := Token.scanFrom_append Token.isBreak_quote hscan (.inr hends)
      (s.flatMap Text.literalPoint ++ [('"' : CodePoint)] ++ behind)
    have hliteral := Token.Scans.literal s (Position.start.behind before) (0 + before.length) behind
    rw [Nat.zero_add] at hfront hliteral
    rw [Token.Scans] at hliteral
    rw [Position.behind_append, List.length_append]
    refine hfront.trans ?_
    refine (congrArg _ hliteral).trans ?_
    cases Token.scanFrom ((Position.start.behind before).behind s.literal)
      (before.length + s.literal.length) behind <;> rfl
  · exact Token.runs_string rfl
  · intro depth front back h
    exact Token.expressionSpan_string (t := Token.ofText s position offset) rfl h back

/-- A literal for a text that has the marks of strings, comments, statements and brackets in it,
between the tokens of a call. -/
theorem run_literal_marks :
    let s : Text := ");//\"\\\n\x00"
    let token (kind : TokenKind) (text : Text) (column offset : Nat) : Token :=
      ⟨kind, text, ⟨1, column⟩, offset⟩
    let m : Machine := ⟨{ bytes := [] }, []⟩
    s.literal = "\");//\\\"\\\\\\n\\x00\"" ∧
    Token.scan ("f(" ++ (s.literal ++ ");1")) = .ok
      [token .name "f" 1 0, token .leftParen "(" 2 1, token .string s.literal 3 2,
        token .rightParen ")" 19 18, token .semicolon ";" 20 19, token .int "1" 21 20] ∧
    (standard {}).run s.literal .empty m =
      (.ok (.text s, .empty), { m with log := [.evaluating 1] }) := by
  intro s token m
  have hs : ∀ c ∈ s, c.isSurrogate = false := by decide
  have hbefore : Token.scan "f(" = .ok [token .name "f" 1 0, token .leftParen "(" 2 1] :=
    eq_ok_of_toOption (by decide +kernel)
  obtain ⟨hscan, -, -, hrun⟩ := run_literal hs
  refine ⟨by rfl, ?_, hrun (standard {}) .empty m⟩
  rw [hscan "f(" ");1" _ hbefore (by decide +kernel)]
  exact eq_ok_of_toOption (by decide +kernel)

end Engine

end TypedMemory
