import Mathlib.Logic.Basic
import TypedMemory.Proofs.Codec.Failures
import TypedMemory.Proofs.Script.Relocation
import TypedMemory.Proofs.Script.Statements

/-!
# Parsing sees only tokens

What stands between the tokens of a script, blanks and comments, is there to keep them apart and
for nothing else. Two scripts with the same tokens, whatever is between them, either have the same
statements but for their places, or are both refused (`TypedMemory.Engine.parse_of_spelling`).

Statements are parsed from slices of their script, blanks and comments and all, and in context; but
what a slice is parsed as its tokens are parsed as (`TypedMemory.Statement.parse_eq`), so that only
the tokens are left to compare. The proof takes them out of their places altogether: with
`TypedMemory.Relocation.nowhere` all of them stand at the beginning of a script, and then tokens
that are spelled alike are equal.
They are refused for the same cause, up to one thing: the second half of a double `=` is told
together with an `=` that follows it at once, so that there it shows whether they touch.
-/

namespace TypedMemory

/-! ### Tokens without their places -/

/-- The token, taken out of its place. -/
def Token.unplaced (t : Token) : Token := { t with position := .start, offset := 0 }

/-- The cause of a parse error, with a double `=` told as a single one. -/
def ParseCause.halved : ParseCause → ParseCause
  | .unexpectedToken t => .unexpectedToken (if t = "==" then "=" else t)
  | cause => cause

theorem Token.halved_secondHalf (t : Token) (rest : List Token) :
    (ParseCause.unexpectedToken (t.secondHalf rest).text).halved = .unexpectedToken "=" := by
  have htext : (t.secondHalf rest).text = "==" ∨ (t.secondHalf rest).text = "=" :=
    ite_eq_or_eq _ _ _
  rcases htext with h | h <;> rw [h] <;> rfl

/-- **No places at all**: failures are told without their places, and the second half of a double
`=` by itself. -/
def Relocation.nowhere : Relocation where
  token := Token.unplaced
  kind_token _ := rfl
  text_token _ := rfl
  Tells e e' := ∃ cause cause' place place', e = .parse cause (some place) ∧
    e' = .parse cause' (some place') ∧ cause.halved = cause'.halved
  tells_token cause t := ⟨cause, cause, _, _, rfl, rfl, rfl⟩
  tells_half t rest := by
    refine ⟨_, _, _, _, rfl, rfl, ?_⟩
    rw [Token.halved_secondHalf, Token.halved_secondHalf]

/-- The statement, with its pieces taken out of their places. -/
def Statement.unplaced : Statement → Statement := Relocation.nowhere.statement

theorem Token.map_unplaced_of_spelling {tokens tokens' : List Token}
    (h : tokens.map spelling = tokens'.map spelling) :
    tokens.map unplaced = tokens'.map unplaced := by
  have hunplaced : unplaced = (fun s => ⟨s.1, s.2, .start, 0⟩) ∘ spelling := rfl
  rw [hunplaced, ← List.map_map, h, List.map_map]

/-! ### Scripts -/

namespace Engine

/-- **Scripts with the same tokens** are parsed alike, whatever stands between the tokens: to the
same statements, their places aside, or to a parse error each, told alike but for a double `=`
that is told as a single one. -/
theorem parse_of_spelling (engine : Engine) {t t' : Text} {tokens tokens' : List Token}
    (h : Token.scan t = .ok tokens) (h' : Token.scan t' = .ok tokens')
    (hspelling : tokens.map Token.spelling = tokens'.map Token.spelling) :
    (∃ ss ss', engine.parse t = .ok ss ∧ engine.parse t' = .ok ss' ∧
      ss.map Statement.unplaced = ss'.map Statement.unplaced) ∨
    ∃ cause cause' place place', engine.parse t = .error (.parse cause (some place)) ∧
      engine.parse t' = .error (.parse cause' (some place')) ∧ cause.halved = cause'.halved := by
  have hparse {t : Text} {tokens : List Token} (h : Token.scan t = .ok tokens) :
      engine.parse t = Statement.parseRuns .tokens engine.forms (Token.statements tokens) := by
    rw [parse, Statement.parse_eq, h]
    rfl
  have hruns (tokens : List Token) : Relocation.nowhere.Corresponds (List.map Statement.unplaced)
      (Statement.parseRuns .tokens engine.forms (Token.statements tokens))
      (Statement.parseRuns .tokens engine.forms
        (Token.statements (tokens.map Token.unplaced))) := by
    have hstatements : Token.statements (tokens.map Token.unplaced) =
        (Token.statements tokens).map (List.map Token.unplaced) :=
      Relocation.nowhere.statements_map tokens
    rw [hstatements]
    exact Relocation.corresponds_parseRuns engine.forms (Token.statements tokens)
  have hsecond := hruns tokens'
  rw [← Token.map_unplaced_of_spelling hspelling] at hsecond
  rw [hparse h, hparse h']
  -- Both correspond to the same result without places, so it decides for both.
  rcases (hruns tokens).cases with ⟨ss, hss, hbare⟩ | ⟨e, e', he, hbare, htells⟩
  · rcases hsecond.cases with ⟨ss', hss', hbare'⟩ | ⟨_, _, -, hbare', -⟩
    · exact .inl ⟨ss, ss', hss, hss', Except.ok.inj (hbare.symm.trans hbare')⟩
    · cases hbare.symm.trans hbare'
  · rcases hsecond.cases with ⟨_, -, hbare'⟩ | ⟨e₁, e₁', he₁, hbare', htells'⟩
    · cases hbare.symm.trans hbare'
    · cases hbare.symm.trans hbare'
      obtain ⟨cause, _, place, _, rfl, rfl, hcause⟩ := htells
      obtain ⟨cause', _, place', _, rfl, heq, hcause'⟩ := htells'
      cases heq
      exact .inr ⟨cause, cause', place, place', he, he₁, hcause.trans hcause'.symm⟩

/-- A declaration and an expression, without a blank that is not needed and with comments. -/
theorem parse_of_spelling_commented :
    let t : Text := "native T\x7b^1,a:UInt8\x7d;-1.5"
    let t' : Text := "native T \x7b // skip\n  ^ 1, a :\tUInt8\n\x7d ; - 1.5 // done"
    ∃ tokens tokens', Token.scan t = .ok tokens ∧ Token.scan t' = .ok tokens' ∧
      tokens.map Token.spelling = tokens'.map Token.spelling ∧
      ∃ ss ss', (standard {}).parse t = .ok ss ∧ (standard {}).parse t' = .ok ss' ∧
        ss.map Statement.unplaced = ss'.map Statement.unplaced := by
  intro t t'
  have hscan : (Token.scan t).toOption.isSome = true := by decide +kernel
  have hscan' : (Token.scan t').toOption.isSome = true := by decide +kernel
  have hspelling : (Token.scan t).toOption.map (List.map Token.spelling) =
      (Token.scan t').toOption.map (List.map Token.spelling) := by decide +kernel
  have hparses : ((standard {}).parse t).toOption.isSome = true := by decide +kernel
  obtain ⟨tokens, htokens⟩ := Option.isSome_iff_exists.mp hscan
  obtain ⟨tokens', htokens'⟩ := Option.isSome_iff_exists.mp hscan'
  rw [htokens, htokens'] at hspelling
  have h := eq_ok_of_toOption htokens
  have h' := eq_ok_of_toOption htokens'
  have hsame := Option.some.inj hspelling
  refine ⟨tokens, tokens', h, h', hsame, ?_⟩
  rcases parse_of_spelling (standard {}) h h' hsame with halike | ⟨cause, _, place, _, hfails, -⟩
  · exact halike
  · rw [hfails] at hparses
    cases hparses

end Engine

end TypedMemory
