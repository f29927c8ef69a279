import Mathlib.Data.List.Induction
import TypedMemory.Proofs.Script.Brackets
import TypedMemory.Proofs.Script.Forms

/-!
# How a form goes through a statement

A form may be any function at all: it is given the symbols so far and the text of the next
token, and answers with the text of what it wants. Asking it is a loop, and here the loop is
taken **turn by turn** (`TypedMemory.StatementForm.turn`). Each turn that goes on has matched one
more piece, and what it matched is the front of the tokens that were not read yet
(`TypedMemory.StatementForm.exists_match_of_turn`). A match has at least one token, so there are
not more turns than tokens, and one for the end, whatever the form answers
(`TypedMemory.StatementForm.turns_eq_ends`).

Along the turns the matches add up (`TypedMemory.StatementForm.Reads`): they are the tokens read
so far, in order, and their symbols are what the form is given. So where a statement is accepted
nothing of it was passed over and nothing was read twice. The other way round matches say which
turns there are (`TypedMemory.StatementForm.Reads.turns_eq`), and a statement that can be matched
as a whole is accepted (`TypedMemory.StatementForm.loop_outcome`).
-/

namespace TypedMemory

/-! ### The end of an expression -/

namespace Token

/-- Tokens that end where an expression does: behind them is nothing, or the first comma or
closing bracket that is outside of their own brackets. -/
structure IsSpan (depth : Nat) (inside behind : List Token) : Prop where
  ends : ∀ t ∈ behind.head?, t.kind.endsExpression = true ∧ depthBehind depth inside = 0
  first : ∀ front t back, inside = front ++ t :: back → t.kind.endsExpression = true →
    depthBehind depth front ≠ 0

theorem isSpan_expressionSpan (depth : Nat) (tokens : List Token) :
    IsSpan depth (expressionSpan depth tokens).1 (expressionSpan depth tokens).2 := by
  induction tokens generalizing depth with
  | nil => exact ⟨nofun, fun front t back h => by cases front <;> cases h⟩
  | cons t rest ih =>
    rw [expressionSpan]
    split
    · next hends =>
      refine ⟨fun s hs => ?_, fun front s back h => by cases front <;> cases h⟩
      obtain rfl : t = s := by simpa using hs
      exact ⟨hends.2, hends.1⟩
    · next hends =>
      have ih := ih (t.depthAfter depth)
      refine ⟨ih.ends, fun front s back h => ?_⟩
      cases front with
      | nil =>
        obtain ⟨rfl, -⟩ := List.cons.inj h
        exact fun hs hdepth => hends ⟨hdepth, hs⟩
      | cons r front =>
        obtain ⟨rfl, hrest⟩ := List.cons.inj h
        exact ih.first front s back hrest

/-- There is only one such end. -/
theorem IsSpan.expressionSpan_eq {depth : Nat} {inside behind : List Token}
    (h : IsSpan depth inside behind) :
    expressionSpan depth (inside ++ behind) = (inside, behind) := by
  induction inside generalizing depth with
  | nil =>
    cases behind with
    | nil => rfl
    | cons t rest =>
      have ht := h.ends t rfl
      rw [List.nil_append, expressionSpan, if_pos ⟨ht.2, ht.1⟩]
  | cons t inside ih =>
    have hgoes : ¬(depth = 0 ∧ t.kind.endsExpression = true) := fun ht =>
      h.first [] t inside rfl ht.2 ht.1
    have hrest : IsSpan (t.depthAfter depth) inside behind :=
      ⟨h.ends, fun front s back hfront => h.first (t :: front) s back (congrArg (t :: ·) hfront)⟩
    rw [List.cons_append, expressionSpan, if_neg hgoes, ih hrest]

end Token

/-! ### Texts that a form asks for -/

namespace Expectation

/-- What no mark asks for is asked for as it is. -/
theorem ofText_eq_literal {t : Text} (h : t ∉ marks.map Prod.fst) : ofText t = literal t := by
  have hnone : marks.lookup t = none := by
    rw [List.lookup_eq_none_iff]
    intro p hp
    exact bne_iff_ne.mpr fun heq => h (heq ▸ List.mem_map_of_mem hp)
  rw [ofText, hnone]
  rfl

theorem text_ofText (t : Text) : (ofText t).text = t := by
  by_cases ht : t ∈ marks.map Prod.fst
  · simp only [marks, List.map_cons, List.map_nil, List.mem_cons, List.not_mem_nil, or_false] at ht
    rcases ht with rfl | rfl | rfl | rfl <;> rfl
  · rw [ofText_eq_literal ht]
    rfl

theorem not_mem_marks_of_ofText {t text : Text} (h : ofText t = literal text) :
    t ∉ marks.map Prod.fst := by
  intro ht
  simp only [marks, List.map_cons, List.map_nil, List.mem_cons, List.not_mem_nil, or_false] at ht
  rcases ht with rfl | rfl | rfl | rfl <;> cases h

end Expectation

/-! ### Matches -/

/-- What was matched, and the text that asked for it. -/
inductive Match
  | token (asked : Text) (t : Token)
  | expression (inside : List Token) (tree : Expr)

namespace Match

/-- The text that asked for it. -/
def asked : Match → Text
  | token asked _ => asked
  | expression _ _ => "$expr$"

/-- Its tokens. -/
def tokens : Match → List Token
  | token _ t => [t]
  | expression inside _ => inside

/-- The symbol that it is for what is matched later. -/
def symbol : Match → Text
  | token _ t => t.text
  | expression _ _ => "$expr$"

/-- The piece that is kept of it, if one is. -/
def piece? : Match → Option Piece
  | token asked t =>
    if (Expectation.ofText asked).isKept then some ⟨Expectation.ofText asked, t, none⟩ else none
  | expression inside tree => inside.head?.map fun first => ⟨.expr, first, some tree⟩

/-- It is what was asked for. -/
inductive Fits (parsers : SpanParsers) : Match → Prop
  | ident {t : Token} : t.kind = .name → Fits parsers (token "$ident$" t)
  | int {t : Token} : t.kind = .int ∨ t.kind = .hexNumber → Fits parsers (token "$int$" t)
  | symbol {t : Token} : t.kind.isValue = false → Fits parsers (token "$symbol$" t)
  | literal {t : Token} : t.text ∉ Expectation.marks.map Prod.fst →
      Fits parsers (token t.text t)
  | expression {first : Token} {rest : List Token} {tree : Expr} :
      parsers.expression first rest = .ok tree →
      Fits parsers (expression (first :: rest) tree)

variable {parsers : SpanParsers}

theorem fits_token {asked : Text} {t : Token} (h : (Expectation.ofText asked).accepts t = true) :
    Fits parsers (token asked t) := by
  have htext := Expectation.text_ofText asked
  cases hasked : Expectation.ofText asked with
  | expr => simp [hasked, Expectation.accepts] at h
  | literal text =>
    rw [hasked] at h htext
    obtain rfl : text = asked := htext
    obtain rfl : t.text = text := by simpa [Expectation.accepts] using h
    exact .literal (Expectation.not_mem_marks_of_ofText hasked)
  | _ =>
    rw [hasked] at h htext
    subst htext
    first
      | exact .ident (by simpa [Expectation.accepts] using h)
      | exact .int (by simpa [Expectation.accepts] using h)
      | exact .symbol (by simpa [Expectation.accepts] using h)

theorem accepts_of_fits {asked : Text} {t : Token} (h : Fits parsers (token asked t)) :
    (Expectation.ofText asked).accepts t = true ∧ Expectation.ofText asked ≠ .expr := by
  cases h with
  | ident hkind =>
    have hasked : Expectation.ofText "$ident$" = .ident := rfl
    exact ⟨by simpa [hasked, Expectation.accepts] using hkind, nofun⟩
  | int hkind =>
    have hasked : Expectation.ofText "$int$" = .int := rfl
    exact ⟨by simpa [hasked, Expectation.accepts] using hkind, nofun⟩
  | symbol hkind =>
    have hasked : Expectation.ofText "$symbol$" = .symbol := rfl
    exact ⟨by simpa [hasked, Expectation.accepts] using hkind, nofun⟩
  | literal hmark =>
    rw [Expectation.ofText_eq_literal hmark]
    exact ⟨by simp [Expectation.accepts], nofun⟩

theorem filterMap_piece?_concat (ms : List Match) (m : Match) :
    (ms ++ [m]).filterMap piece? = ms.filterMap piece? ++ m.piece?.toList := by
  rw [List.filterMap_append]
  cases hpiece : m.piece? <;> simp [hpiece]

theorem Fits.tokens_ne_nil {m : Match} (h : m.Fits parsers) : m.tokens ≠ [] := by
  cases h <;> exact List.cons_ne_nil _ _

end Match

/-! ### The loop -/

namespace StatementForm

/-- The form of any function that answers with texts. -/
def ofTexts (keyword : Text) (next : List Text → Text → Option Text) : StatementForm :=
  ⟨keyword, fun symbols ahead => (next symbols ahead).map Expectation.ofText⟩

/-- How far a statement is matched: the symbols, the keyword first, the pieces that are kept,
and the tokens that are still unread. -/
structure Progress where
  symbols : List Text
  pieces : List Piece
  unread : List Token

/-- What a turn leads to: to the next one, or to the end. -/
inductive Turn
  | goes (p : Progress)
  | ends (r : Except Error (List Piece))

/-- An expression is taken, from its first token on. -/
def takeExpression (parsers : SpanParsers) (p : Progress) (t : Token) : Turn :=
  match Token.expressionSpan 0 p.unread with
  | ([], _) => .ends (Error.fail (.parse (.expectedExpression t.text) (some t.position)))
  | (first :: inside, behind) =>
    match parsers.expression first inside with
    | .ok tree =>
      .goes ⟨p.symbols ++ [Expectation.expr.text], p.pieces ++ [⟨.expr, t, some tree⟩], behind⟩
    | .error e => .ends (.error e)

/-- A single token is taken. -/
def takeToken (form : StatementForm) (p : Progress) (expected : Expectation) (t : Token)
    (rest : List Token) : Turn :=
  if expected.accepts t then
    .goes ⟨p.symbols ++ [t.text],
      p.pieces ++ (if expected.isKept then [⟨expected, t, none⟩] else []), rest⟩
  else
    .ends (Error.fail (.parse (.expectedPiece expected.text form.keyword t.text) (some t.position)))

/-- **One turn of the loop.** The form is asked once. -/
def turn (form : StatementForm) (parsers : SpanParsers) (last : Position) (p : Progress) : Turn :=
  match form.next p.symbols (lookAhead p.unread), p.unread with
  | none, [] => .ends (.ok p.pieces)
  | none, t :: _ => .ends (Error.fail (.parse (.trailing t.text form.keyword) (some t.position)))
  | some expected, [] =>
    .ends (Error.fail (.parse (.statementEnded form.keyword expected.text) (some last)))
  | some expected, t :: rest =>
    if expected = .expr then takeExpression parsers p t else form.takeToken p expected t rest

/-- So many turns, unless the loop ends before. -/
def turns (form : StatementForm) (parsers : SpanParsers) (last : Position) : Nat → Progress → Turn
  | 0, p => .goes p
  | n + 1, p =>
    match form.turn parsers last p with
    | .goes q => turns form parsers last n q
    | .ends r => .ends r

/-- What comes of a statement that is matched so far. -/
def outcome (form : StatementForm) (parsers : SpanParsers) (last : Position) (p : Progress) :
    Except Error (List Piece) :=
  (form.pieces parsers last p.symbols p.unread).map (p.pieces ++ ·)

/-- What comes of a statement by a turn. -/
def Turn.outcome (form : StatementForm) (parsers : SpanParsers) (last : Position) :
    Turn → Except Error (List Piece)
  | goes q => form.outcome parsers last q
  | ends r => r

section Turn

variable {form : StatementForm} {parsers : SpanParsers} {last : Position} {p q : Progress}

theorem outcome_takeExpression {t : Token} {rest : List Token} (hunread : p.unread = t :: rest)
    (hnext : form.next p.symbols (lookAhead p.unread) = some .expr) :
    (takeExpression parsers p t).outcome form parsers last = form.outcome parsers last p := by
  rw [outcome, pieces_of_expr last hnext, hunread, takeExpression, hunread]
  rcases Token.expressionSpan 0 (t :: rest) with ⟨_ | ⟨first, inside⟩, behind⟩
  · rfl
  · dsimp only
    cases parsers.expression first inside with
    | error e => rfl
    | ok tree =>
      dsimp only [Turn.outcome, outcome]
      cases form.pieces parsers last (p.symbols ++ [Expectation.expr.text]) behind with
      | error e => rfl
      | ok more => exact congrArg Except.ok (List.append_assoc p.pieces [_] more)

theorem outcome_takeToken {expected : Expectation} {t : Token} {rest : List Token}
    (hunread : p.unread = t :: rest) (hsingle : expected ≠ .expr)
    (hnext : form.next p.symbols (lookAhead p.unread) = some expected) :
    (form.takeToken p expected t rest).outcome form parsers last = form.outcome parsers last p := by
  rw [outcome, pieces_of_single last hnext hsingle, hunread, takeToken]
  dsimp only
  by_cases haccepts : expected.accepts t = true
  · rw [if_pos haccepts, if_pos haccepts]
    dsimp only [Turn.outcome, outcome]
    cases form.pieces parsers last (p.symbols ++ [t.text]) rest with
    | error e => rfl
    | ok more =>
      refine congrArg Except.ok ((List.append_assoc p.pieces _ more).trans ?_)
      cases expected.isKept <;> rfl
  · rw [if_neg haccepts, if_neg haccepts]
    rfl

/-- A turn does not change what comes of the statement. -/
theorem outcome_turn (form : StatementForm) (parsers : SpanParsers) (last : Position)
    (p : Progress) :
    (form.turn parsers last p).outcome form parsers last = form.outcome parsers last p := by
  rw [turn]
  cases hnext : form.next p.symbols (lookAhead p.unread) with
  | none =>
    rw [outcome, pieces_of_none last hnext]
    cases p.unread with
    | nil => exact congrArg Except.ok (List.append_nil p.pieces).symm
    | cons t rest => rfl
  | some expected =>
    cases hunread : p.unread with
    | nil =>
      rw [outcome, pieces.eq_def, hnext, hunread]
      rfl
    | cons t rest =>
      dsimp only
      split
      · next hexpr => exact outcome_takeExpression hunread (hexpr ▸ hnext)
      · next hexpr => exact outcome_takeToken hunread hexpr hnext

/-- An expression that is taken goes up to where its brackets say. -/
theorem takeExpression_eq_goes {t : Token} {rest : List Token} (hunread : p.unread = t :: rest)
    (h : takeExpression parsers p t = .goes q) :
    ∃ inside tree, (Match.expression inside tree).Fits parsers ∧ p.unread = inside ++ q.unread ∧
      Token.IsSpan 0 inside q.unread ∧
      q.symbols = p.symbols ++ [(Match.expression inside tree).symbol] ∧
      q.pieces = p.pieces ++ (Match.expression inside tree).piece?.toList := by
  have hspan := Token.isSpan_expressionSpan 0 p.unread
  have happend := Token.expressionSpan_append 0 p.unread
  rw [takeExpression] at h
  rcases hresult : Token.expressionSpan 0 p.unread with ⟨_ | ⟨first, inside⟩, behind⟩
  · rw [hresult] at h
    cases h
  · rw [hresult] at h hspan happend
    -- The place that the parser is told is that of the first token of the expression.
    obtain ⟨rfl, -⟩ : first = t ∧ inside ++ behind = rest := List.cons.inj (happend.trans hunread)
    dsimp only at h
    cases hparse : parsers.expression first inside with
    | error e =>
      rw [hparse] at h
      cases h
    | ok tree =>
      rw [hparse] at h
      cases h
      exact ⟨first :: inside, tree, .expression hparse, happend.symm, hspan, rfl, rfl⟩

theorem takeToken_eq_goes {asked : Text} {t : Token} {rest : List Token}
    (h : form.takeToken p (.ofText asked) t rest = .goes q) :
    (Match.token asked t).Fits parsers ∧
      q = ⟨p.symbols ++ [t.text], p.pieces ++ (Match.token asked t).piece?.toList, rest⟩ := by
  rw [takeToken] at h
  split at h
  · next haccepts =>
    cases h
    refine ⟨Match.fits_token haccepts, ?_⟩
    rw [Match.piece?]
    split <;> rfl
  · cases h

/-- **What a turn does that goes on**: it matches the front of what was unread. -/
theorem exists_match_of_turn {next : List Text → Text → Option Text} {keyword : Text}
    (h : (ofTexts keyword next).turn parsers last p = .goes q) :
    ∃ m : Match, next p.symbols (lookAhead p.unread) = some m.asked ∧ m.Fits parsers ∧
      p.unread = m.tokens ++ q.unread ∧
      (∀ inside tree, m = .expression inside tree → Token.IsSpan 0 inside q.unread) ∧
      q.symbols = p.symbols ++ [m.symbol] ∧ q.pieces = p.pieces ++ m.piece?.toList := by
  rw [turn] at h
  dsimp only [ofTexts] at h
  cases hnext : next p.symbols (lookAhead p.unread) with
  | none =>
    rw [hnext] at h
    cases hunread : p.unread <;> rw [hunread] at h <;> cases h
  | some asked =>
    rw [hnext, Option.map_some] at h
    cases hunread : p.unread with
    | nil =>
      rw [hunread] at h
      cases h
    | cons t rest =>
      rw [hunread] at h
      dsimp only at h
      split at h
      · next hexpr =>
        obtain rfl : asked = "$expr$" := by rw [← Expectation.text_ofText asked, hexpr]; rfl
        obtain ⟨inside, tree, hfits, hinside, hspan, hsymbols, hpieces⟩ :=
          takeExpression_eq_goes hunread h
        refine ⟨.expression inside tree, rfl, hfits, hunread ▸ hinside, ?_, hsymbols, hpieces⟩
        rintro _ _ ⟨⟩
        exact hspan
      · obtain ⟨hfits, rfl⟩ : (Match.token asked t).Fits parsers ∧ _ := takeToken_eq_goes h
        exact ⟨.token asked t, rfl, hfits, rfl, nofun, rfl, rfl⟩

/-- A statement is accepted where nothing is expected any more and nothing is left. -/
theorem turn_eq_ok {ps : List Piece} (h : form.turn parsers last p = .ends (.ok ps)) :
    form.next p.symbols ";" = none ∧ p.unread = [] ∧ ps = p.pieces := by
  rw [turn] at h
  split at h
  · next hnext hunread =>
    rw [hunread] at hnext
    cases h
    exact ⟨hnext, hunread, rfl⟩
  · cases h
  · cases h
  · split at h
    · rw [takeExpression] at h
      split at h
      · cases h
      · split at h <;> cases h
    · rw [takeToken] at h
      split at h <;> cases h

/-- Where a statement is complete, a turn accepts it. -/
theorem turn_eq_ends (hnext : form.next p.symbols ";" = none) (hunread : p.unread = []) :
    form.turn parsers last p = .ends (.ok p.pieces) := by
  have hnext' : form.next p.symbols (lookAhead p.unread) = none := by rw [hunread]; exact hnext
  rw [turn, hnext', hunread]

/-- A match is made where it is asked for. -/
theorem turn_of_match {next : List Text → Text → Option Text} {keyword : Text} {symbols : List Text}
    {ps : List Piece} {rest : List Token} {m : Match}
    (hasked : next symbols (lookAhead (m.tokens ++ rest)) = some m.asked) (hfits : m.Fits parsers)
    (hspan : ∀ inside tree, m = .expression inside tree → Token.IsSpan 0 inside rest) :
    (ofTexts keyword next).turn parsers last ⟨symbols, ps, m.tokens ++ rest⟩ =
      .goes ⟨symbols ++ [m.symbol], ps ++ m.piece?.toList, rest⟩ := by
  rw [turn]
  dsimp only [ofTexts]
  rw [hasked, Option.map_some]
  cases m with
  | token asked t =>
    obtain ⟨haccepts, hexpr⟩ := Match.accepts_of_fits hfits
    dsimp only [Match.tokens, Match.asked, List.cons_append]
    rw [if_neg hexpr, takeToken, if_pos haccepts, Match.piece?]
    dsimp only [Match.symbol]
    split <;> rfl
  | expression inside tree =>
    cases hfits with
    | expression hparse =>
      have hasked : Expectation.ofText "$expr$" = .expr := rfl
      dsimp only [Match.tokens, Match.asked, List.cons_append]
      rw [if_pos hasked, takeExpression]
      dsimp only
      rw [← List.cons_append, (hspan _ tree rfl).expressionSpan_eq]
      dsimp only
      rw [hparse]
      rfl

/-- One more turn is a turn at the end. -/
theorem turns_succ {n : Nat} (h : form.turns parsers last n p = .goes q) :
    form.turns parsers last (n + 1) p = form.turn parsers last q := by
  induction n generalizing p with
  | zero =>
    cases h
    rw [turns]
    cases form.turn parsers last q <;> rfl
  | succ n ih =>
    rw [turns] at h
    split at h
    · next q' hq =>
      rw [turns, hq]
      exact ih h
    · cases h

/-- No number of turns changes what comes of the statement. -/
theorem outcome_turns {n : Nat} (h : form.turns parsers last n p = .goes q) :
    form.outcome parsers last q = form.outcome parsers last p := by
  induction n generalizing p with
  | zero =>
    cases h
    rfl
  | succ n ih =>
    rw [turns] at h
    split at h
    · next q' hq => rw [ih h, ← outcome_turn form parsers last p, hq, Turn.outcome]
    · cases h

/-- A loop that has ended did so in the last of its turns. -/
theorem exists_of_turns_eq_ends {n : Nat} {r : Except Error (List Piece)}
    (h : form.turns parsers last n p = .ends r) :
    ∃ k q, k < n ∧ form.turns parsers last k p = .goes q ∧ form.turn parsers last q = .ends r := by
  induction n generalizing p with
  | zero => cases h
  | succ n ih =>
    rw [turns] at h
    split at h
    · next q hq =>
      obtain ⟨k, q', hk, hturns, hturn⟩ := ih h
      exact ⟨k + 1, q', Nat.succ_lt_succ hk, by rw [turns, hq]; exact hturns, hturn⟩
    · next r' hr =>
      cases h
      exact ⟨0, p, Nat.succ_pos n, rfl, hr⟩

end Turn

/-! ### All turns -/

section Turns

variable {parsers : SpanParsers} {next : List Text → Text → Option Text} {keyword : Text}
  {last : Position} {tokens : List Token} {ms : List Match} {p q : Progress}

/-- **The loop ends**, within a turn for each token and one more. -/
theorem turns_eq_ends {n : Nat} (h : p.unread.length < n) :
    (ofTexts keyword next).turns parsers last n p =
      .ends ((ofTexts keyword next).outcome parsers last p) := by
  induction n generalizing p with
  | zero => exact absurd h (Nat.not_lt_zero _)
  | succ n ih =>
    rw [turns, ← outcome_turn]
    cases hturn : (ofTexts keyword next).turn parsers last p with
    | ends r => rfl
    | goes q =>
      obtain ⟨m, -, hfits, hunread, -⟩ := exists_match_of_turn hturn
      -- Whatever was asked for, a match has a token, so less is unread than before.
      have hpos : 0 < m.tokens.length := List.length_pos_iff.mpr hfits.tokens_ne_nil
      have hshorter : q.unread.length < n := by
        rw [hunread, List.length_append] at h
        omega
      exact ih hshorter

/-- The matches that have been made on the way to a state of the loop. -/
structure Reads (parsers : SpanParsers) (next : List Text → Text → Option Text) (keyword : Text)
    (tokens : List Token) (ms : List Match) (p : Progress) : Prop where
  /-- They are the tokens read so far, in order. -/
  tokens_eq : ms.flatMap Match.tokens ++ p.unread = tokens
  symbols_eq : p.symbols = keyword :: ms.map Match.symbol
  pieces_eq : p.pieces = ms.filterMap Match.piece?
  fits : ∀ m ∈ ms, m.Fits parsers
  /-- Each was asked for with the symbols before it and the token at which it starts. -/
  called : ∀ before m after, ms = before ++ m :: after →
    next (keyword :: before.map Match.symbol)
      (lookAhead (m.tokens ++ (after.flatMap Match.tokens ++ p.unread))) = some m.asked
  /-- Each expression ends where its brackets say. -/
  spans : ∀ before inside tree after, ms = before ++ .expression inside tree :: after →
    Token.IsSpan 0 inside (after.flatMap Match.tokens ++ p.unread)

theorem Reads.start : Reads parsers next keyword tokens [] ⟨[keyword], [], tokens⟩ where
  tokens_eq := rfl
  symbols_eq := rfl
  pieces_eq := rfl
  fits := nofun
  called before m after h := by cases before <;> cases h
  spans before inside tree after h := by cases before <;> cases h

/-- Each match is the last one or is followed by it. -/
theorem eq_or_exists_of_append_singleton {m m' : Match} {before after : List Match}
    (h : ms ++ [m] = before ++ m' :: after) :
    (before = ms ∧ m' = m ∧ after = []) ∨
      ∃ after', ms = before ++ m' :: after' ∧ after = after' ++ [m] := by
  rcases List.eq_nil_or_concat after with rfl | ⟨after', m'', rfl⟩
  · obtain ⟨rfl, hm⟩ := List.append_inj' h rfl
    cases hm
    exact .inl ⟨rfl, rfl, rfl⟩
  · rw [List.concat_eq_append, ← List.cons_append, ← List.append_assoc] at h
    obtain ⟨rfl, hm⟩ := List.append_inj' h rfl
    cases hm
    exact .inr ⟨after', rfl, List.concat_eq_append⟩

/-- **What a turn preserves**: it adds a match. -/
theorem Reads.turn (h : Reads parsers next keyword tokens ms p)
    (hturn : (ofTexts keyword next).turn parsers last p = .goes q) :
    ∃ m, Reads parsers next keyword tokens (ms ++ [m]) q := by
  obtain ⟨m, hasked, hfits, hunread, hspan, hsymbols, hpieces⟩ := exists_match_of_turn hturn
  -- What has become a match was the front of what was unread: behind the others nothing changes.
  have hbehind : ∀ after : List Match, (after ++ [m]).flatMap Match.tokens ++ q.unread =
      after.flatMap Match.tokens ++ p.unread := by
    intro after
    rw [List.flatMap_append, List.append_assoc, List.flatMap_singleton, ← hunread]
  refine ⟨m, ⟨?_, ?_, ?_, ?_, ?_, ?_⟩⟩
  · rw [hbehind, h.tokens_eq]
  · rw [hsymbols, h.symbols_eq, List.map_append, List.cons_append]
    rfl
  · rw [hpieces, h.pieces_eq, Match.filterMap_piece?_concat]
  · intro m' hm'
    rcases List.mem_append.mp hm' with hm' | hm'
    · exact h.fits m' hm'
    · exact List.mem_singleton.mp hm' ▸ hfits
  · intro before m' after hms
    rcases eq_or_exists_of_append_singleton hms with ⟨rfl, rfl, rfl⟩ | ⟨after', hbefore, rfl⟩
    · rw [List.flatMap_nil, List.nil_append, ← hunread, ← h.symbols_eq]
      exact hasked
    · rw [hbehind]
      exact h.called before m' after' hbefore
  · intro before inside tree after hms
    rcases eq_or_exists_of_append_singleton hms with ⟨rfl, rfl, rfl⟩ | ⟨after', hbefore, rfl⟩
    · exact hspan inside tree rfl
    · rw [hbehind]
      exact h.spans before inside tree after' hbefore

/-- So many turns add as many matches. -/
theorem Reads.turns {n : Nat} (h : Reads parsers next keyword tokens ms p)
    (hturns : (ofTexts keyword next).turns parsers last n p = .goes q) :
    ∃ ms', ms'.length = ms.length + n ∧ Reads parsers next keyword tokens ms' q := by
  induction n generalizing p ms with
  | zero =>
    cases hturns
    exact ⟨ms, rfl, h⟩
  | succ n ih =>
    rw [StatementForm.turns] at hturns
    split at hturns
    · next p' hturn =>
      obtain ⟨m, h⟩ := h.turn hturn
      obtain ⟨ms', hlength, h⟩ := ih h hturns
      refine ⟨ms', ?_, h⟩
      rw [hlength, List.length_append, List.length_singleton]
      omega
    · cases hturns

/-- As many turns as there are matches make them all. -/
theorem Reads.turns_eq (h : Reads parsers next keyword tokens ms p) :
    (ofTexts keyword next).turns parsers last ms.length ⟨[keyword], [], tokens⟩ = .goes p := by
  have hbefore : ∀ before after, ms = before ++ after →
      (ofTexts keyword next).turns parsers last before.length ⟨[keyword], [], tokens⟩ =
        .goes ⟨keyword :: before.map Match.symbol, before.filterMap Match.piece?,
          after.flatMap Match.tokens ++ p.unread⟩ := by
    intro before
    induction before using List.reverseRecOn with
    | nil =>
      rintro after rfl
      exact congrArg (fun unread => Turn.goes ⟨[keyword], [], unread⟩) h.tokens_eq.symm
    | append_singleton before m ih =>
      intro after hms
      rw [List.append_assoc, List.singleton_append] at hms
      have hturns := ih (m :: after) hms
      have hfits : m.Fits parsers := h.fits m (by simp [hms])
      rw [List.flatMap_cons, List.append_assoc] at hturns
      rw [List.length_append, List.length_singleton, turns_succ hturns,
        turn_of_match (h.called before m after hms) hfits ?_, Match.filterMap_piece?_concat,
        List.map_append]
      · rfl
      · rintro inside tree rfl
        exact h.spans before inside tree after hms
  obtain ⟨symbols, pieces, unread⟩ := p
  rw [hbefore ms [] (List.append_nil ms).symm, ← h.symbols_eq, ← h.pieces_eq]
  rfl

end Turns

/-- **Every form comes to an end of every statement and passes over nothing.** Let any function
say what is expected next, take the tokens behind a keyword, and let expressions be parsed in any
way, from their slices of a script or from their tokens. The loop ends within a turn
for each token and one more. The state before each of its turns is that of the matches made so
far, one a turn: their tokens are the ones read so far, in order, each is what was asked for,
and it was asked for with the symbols of those before it and with the text of the next token.
The statement is accepted exactly where such matches are all of the tokens, and nothing more is
expected with `;` in the place of the next token. -/
theorem loop_outcome (parsers : SpanParsers) (keyword : Text)
    (next : List Text → Text → Option Text) (last : Position) (tokens : List Token) :
    let form := ofTexts keyword next
    form.turns parsers last (tokens.length + 1) ⟨[keyword], [], tokens⟩ =
        .ends (form.pieces parsers last [keyword] tokens) ∧
    (∀ n p, form.turns parsers last n ⟨[keyword], [], tokens⟩ = .goes p →
      ∃ ms, ms.length = n ∧ Reads parsers next keyword tokens ms p) ∧
    ∀ ps, form.pieces parsers last [keyword] tokens = .ok ps ↔
      ∃ ms, Reads parsers next keyword tokens ms ⟨keyword :: ms.map Match.symbol, ps, []⟩ ∧
        next (keyword :: ms.map Match.symbol) ";" = none := by
  intro form
  have houtcome : form.outcome parsers last ⟨[keyword], [], tokens⟩ =
      form.pieces parsers last [keyword] tokens := congrFun Except.map_id _
  have hends : form.turns parsers last (tokens.length + 1) ⟨[keyword], [], tokens⟩ =
      .ends (form.pieces parsers last [keyword] tokens) :=
    (turns_eq_ends (Nat.lt_succ_self tokens.length)).trans (congrArg Turn.ends houtcome)
  have hreads : ∀ n p, form.turns parsers last n ⟨[keyword], [], tokens⟩ = .goes p →
      ∃ ms, ms.length = n ∧ Reads parsers next keyword tokens ms p := by
    intro n p hturns
    obtain ⟨ms, hlength, h⟩ := Reads.start.turns hturns
    exact ⟨ms, by simpa using hlength, h⟩
  refine ⟨hends, hreads, fun ps => ⟨fun hps => ?_, ?_⟩⟩
  · rw [hps] at hends
    obtain ⟨k, p, -, hturns, hturn⟩ := exists_of_turns_eq_ends hends
    obtain ⟨hnext, hunread, rfl⟩ := turn_eq_ok hturn
    obtain ⟨ms, -, h⟩ := hreads k p hturns
    obtain ⟨symbols, ps, unread⟩ := p
    obtain rfl : unread = [] := hunread
    obtain rfl : symbols = keyword :: ms.map Match.symbol := h.symbols_eq
    exact ⟨ms, h, by simpa [form, ofTexts] using hnext⟩
  · rintro ⟨ms, h, hnext⟩
    have hnone : form.next (keyword :: ms.map Match.symbol) ";" = none := by
      simpa [form, ofTexts] using hnext
    calc form.pieces parsers last [keyword] tokens
        = form.outcome parsers last ⟨[keyword], [], tokens⟩ := houtcome.symm
      _ = form.outcome parsers last ⟨keyword :: ms.map Match.symbol, ps, []⟩ :=
          (outcome_turns h.turns_eq).symm
      _ = (form.turn parsers last ⟨keyword :: ms.map Match.symbol, ps, []⟩).outcome form parsers
          last := (outcome_turn form parsers last _).symm
      _ = .ok ps := by rw [turn_eq_ends hnone rfl]; rfl

/-- Two expressions with a comma between them, and one more inside of the brackets of the first:
three matches of seven tokens. -/
theorem loop_outcome_pair :
    let next : List Text → Text → Option Text := fun symbols _ =>
      [none, some "$expr$", some ",", some "$expr$"].getD symbols.length none
    let tokens : List Token := [⟨.leftBracket, "[", ⟨1, 6⟩, 5⟩, ⟨.int, "1", ⟨1, 7⟩, 6⟩,
      ⟨.comma, ",", ⟨1, 8⟩, 7⟩, ⟨.int, "2", ⟨1, 9⟩, 8⟩, ⟨.rightBracket, "]", ⟨1, 10⟩, 9⟩,
      ⟨.comma, ",", ⟨1, 11⟩, 10⟩, ⟨.name, "b", ⟨1, 12⟩, 11⟩]
    ∃ ms ps, (ofTexts "pair" next).pieces .tokens ⟨1, 12⟩ ["pair"] tokens = .ok ps ∧ ps.length = 2 ∧
      Reads .tokens next "pair" tokens ms ⟨"pair" :: ms.map Match.symbol, ps, []⟩ := by
  intro next tokens
  have hrun : (ofTexts "pair" next).turns .tokens ⟨1, 12⟩ (tokens.length + 1)
      ⟨["pair"], [], tokens⟩ = .ends (.ok [
        ⟨.expr, tokens[0], some (.array [.integer "1", .integer "2"])⟩,
        ⟨.expr, tokens[6], some (.var "b")⟩]) := by rfl
  obtain ⟨hends, -, haccepted⟩ := loop_outcome .tokens "pair" next ⟨1, 12⟩ tokens
  have hpieces := Turn.ends.inj (hends.symm.trans hrun)
  obtain ⟨ms, hreads, -⟩ := (haccepted _).mp hpieces
  exact ⟨ms, _, hpieces, rfl, hreads⟩

end StatementForm

end TypedMemory
