import Mathlib.Data.List.Basic
import TypedMemory.Proofs.Layout
import TypedMemory.Proofs.Script.Joining

/-!
# Rendered layouts are scripts

How a layout is rendered and how a script makes one are told apart from each other: the one has
names and brackets, the other a scanner, a grammar, a table of functions and, for names that are
bound to nothing, a list of layouts. They agree (`TypedMemory.Engine.run_describe`): what a layout
without structs is rendered as is a script that has that layout as its value.

The induction is over the layout, and what carries it is that rendering gives the tokens of an
expression **in front of anything that does not go on with them**
(`TypedMemory.Layout.exists_said`): a name could run into the text behind it, and a number into
a point or into the mark of another base, but inside of a rendered layout each has a bracket or a
comma behind it. The expression has its value in every machine, so it does not matter how it is
used.

A number is scanned as a row of digits and only read when the expression is evaluated. It is
written with no more digits than are ever read, which is what scripts having words for a layout
comes to (`TypedMemory.Expr.integerValue_decimal`).
-/

namespace TypedMemory

/-! ### Numerals in decimal -/

namespace Numeral

theorem decimal_natCast (n : Nat) : decimal n = (Nat.toDigits 10 n).map CodePoint.ofChar := by
  rw [decimal, if_neg (Int.not_lt.mpr (Int.natCast_nonneg n)), Int.natAbs_natCast, digits]

theorem isDigit_ofChar {c : Char} (h : c.isDigit = true) : (CodePoint.ofChar c).isDigit = true := by
  rw [Char.isDigit, Bool.and_eq_true, decide_eq_true_eq, decide_eq_true_eq] at h
  rw [CodePoint.isDigit, Bool.and_eq_true, decide_eq_true_eq, decide_eq_true_eq]
  exact h

theorem isDigit_of_mem_decimal {n : Nat} {c : CodePoint} (hc : c ∈ decimal n) :
    c.isDigit = true := by
  rw [decimal_natCast] at hc
  obtain ⟨d, hd, rfl⟩ := List.mem_map.mp hc
  exact isDigit_ofChar (Nat.isDigit_of_mem_toDigits (by decide) (by decide) hd)

theorem hexDigit?_ofChar {c : Char} (h : c.isDigit = true) :
    (CodePoint.ofChar c).hexDigit? = some (c.toNat - '0'.toNat) := by
  rw [CodePoint.hexDigit?, if_pos (isDigit_ofChar h)]
  rfl

/-- A number in decimal spells itself. -/
theorem value_decimal (n : Nat) : value 10 (decimal n) = n := by
  calc value 10 (decimal n) = Nat.ofDigitChars 10 (Nat.toDigits 10 n) 0 := by
        rw [value, decimal_natCast, List.foldl_map, Nat.ofDigitChars_eq_foldl]
        refine List.foldl_ext _ _ 0 fun k c hc => ?_
        have hdigit := Nat.isDigit_of_mem_toDigits (by decide) (by decide) hc
        rw [hexDigit?_ofChar hdigit, Option.getD_some, Nat.mul_comm]
    _ = n := Nat.ofDigitChars_ten_toDigits

end Numeral

/-- What is not too long to be spelled is not too long to be read. -/
theorem Expr.integerValue_decimal {n : Nat} (h : Numeral.isSpellable n = true) :
    integerValue (Numeral.decimal n) = .ok (.int n) := by
  have hlength : (Numeral.decimal n).length ≤ Numeral.digitLimit := by
    rw [Numeral.decimal_natCast, List.length_map]
    simpa [Numeral.isSpellable] using h
  rw [integerValue, if_pos hlength, Numeral.value_decimal]

/-! ### Scanning part by part -/

namespace Token

/-- The text has these tokens in front of the other one. -/
def Scans (position : Position) (offset : Nat) (t : Text) (tokens : List Token)
    (behind : Text) : Prop :=
  scanFrom position offset (t ++ behind) =
    (scanFrom (position.behind t) (offset + t.length) behind).map (tokens ++ ·)

namespace Scans

variable {position : Position} {offset : Nat} {t u behind : Text} {tokens more : List Token}

theorem append (h : Scans position offset t tokens (u ++ behind))
    (h' : Scans (position.behind t) (offset + t.length) u more behind) :
    Scans position offset (t ++ u) (tokens ++ more) behind := by
  rw [Scans, List.append_assoc, h, h', Position.behind_append, List.length_append, Nat.add_assoc]
  cases scanFrom ((position.behind t).behind u) (offset + (t.length + u.length)) behind with
  | error e => rfl
  | ok rest => exact congrArg Except.ok (List.append_assoc tokens more rest).symm

/-- The tokens in front of nothing are those of the text. -/
theorem scan (h : Scans .start 0 t tokens []) : Token.scan t = .ok tokens := by
  rw [Scans, List.append_nil, scanFrom] at h
  rw [Token.scan, h]
  exact congrArg Except.ok (List.append_nil tokens)

/-- A token that is taken as a whole. -/
theorem single {c : CodePoint} {rest : Text} {kind : TokenKind}
    (h : lexeme? c (rest ++ behind) = some (some kind, rest.length)) :
    Scans position offset (c :: rest) [⟨kind, c :: rest, position, offset⟩] behind := by
  rw [Scans, List.cons_append, scanFrom, h]
  simp only [List.take_left, List.drop_left]
  cases scanFrom (position.behind (c :: rest)) (offset + (c :: rest).length) behind <;> rfl

/-- A blank is passed over. -/
theorem blank : Scans position offset " " [] behind := by
  have hblank : lexeme? (' ' : CodePoint) behind = some (none, 0) := rfl
  have htext : (" " : Text) = [(' ' : CodePoint)] := rfl
  rw [Scans, htext, List.cons_append, List.nil_append, scanFrom, hblank]
  simp only [List.take_zero, List.drop_zero, bind_pure, List.nil_append]
  exact (congrFun Except.map_id _).symm

/-- A symbol of one code point. -/
theorem symbol {c : CodePoint} {kind : TokenKind} (h : lexeme? c behind = some (some kind, 0)) :
    Scans position offset [c] [⟨kind, [c], position, offset⟩] behind :=
  single h

theorem leftParen : Scans position offset "(" [⟨.leftParen, "(", position, offset⟩] behind :=
  symbol (by cases behind <;> rfl)

theorem rightParen : Scans position offset ")" [⟨.rightParen, ")", position, offset⟩] behind :=
  symbol (by cases behind <;> rfl)

theorem comma : Scans position offset "," [⟨.comma, ",", position, offset⟩] behind :=
  symbol (by cases behind <;> rfl)

end Scans

/-! ### Names and numbers -/

/-- A text that is a name, and no word with a meaning of its own. -/
def isName : Text → Bool
  | [] => false
  | c :: rest => isNameStart c && rest.all isNamePart && nameKind (c :: rest) == .name

/-- A name is one token, if what is behind it could not go on with it. -/
theorem Scans.name {position : Position} {offset : Nat} {t behind : Text} (ht : isName t = true)
    (hbehind : ∀ c ∈ behind.head?, isNamePart c = false) :
    Scans position offset t [⟨.name, t, position, offset⟩] behind := by
  cases t with
  | nil => cases ht
  | cons c rest =>
    simp only [isName, Bool.and_eq_true, List.all_eq_true, beq_iff_eq] at ht
    obtain ⟨⟨hstart, hrest⟩, hkind⟩ := ht
    refine .single ?_
    rw [lexeme?_of_isNameStart hstart, ← take_runLength, runLength_of_forall hrest hbehind,
      List.take_left, hkind]

theorem numberShape_of_digits {c : CodePoint} {rest behind : Text}
    (hrest : ∀ d ∈ rest, d.isDigit = true) :
    numberShape c (rest ++ (')' : CodePoint) :: behind) = (.int, rest.length) := by
  have hlength : runLength CodePoint.isDigit (rest ++ (')' : CodePoint) :: behind) = rest.length :=
    runLength_of_forall hrest (by rintro _ ⟨⟩; decide)
  have hmark : (rest ++ (')' : CodePoint) :: behind).head? ≠ some ('x' : CodePoint) := by
    cases rest with
    | nil => rintro ⟨⟩
    | cons d rest =>
      rintro ⟨⟩
      exact absurd (hrest _ List.mem_cons_self) (by decide)
  have hpoint : ((')' : CodePoint) :: behind).head? ≠ some ('.' : CodePoint) := by rintro ⟨⟩
  rw [numberShape, if_neg (fun h => hmark h.2.1), hlength]
  dsimp only
  rw [List.drop_left, if_neg (fun h => hpoint h.1)]

/-- Digits in front of a bracket are one token. -/
theorem Scans.int {position : Position} {offset : Nat} {t behind : Text} (hne : t ≠ [])
    (ht : ∀ c ∈ t, c.isDigit = true) :
    Scans position offset t [⟨.int, t, position, offset⟩] ((')' : CodePoint) :: behind) := by
  obtain ⟨c, rest, rfl⟩ := List.exists_cons_of_ne_nil hne
  obtain ⟨hc, hrest⟩ := List.forall_mem_cons.mp ht
  refine .single ?_
  rw [lexeme?_of_isDigit hc, numberShape_of_digits hrest]

end Token

/-! ### Expressions for layouts -/

namespace Expr

variable [Host]

/-- Has this value where no name is bound, whatever the machine, and leaves the machine as it
is. -/
def HasValue (e : Expr) (v : Value) : Prop :=
  ∀ options m, e.eval options .empty m = (.ok v, m)

theorem evalItems_of_hasValue {items : List Expr} {values : List Value}
    (h : List.Forall₂ HasValue items values) (options : Options) (m : Machine) :
    eval.evalItems options .empty items m = (.ok values, m) := by
  induction h with
  | nil => rfl
  | cons hv _ ih =>
    rw [eval.evalItems, Effect.bind_of_ok (hv options m), Effect.bind_of_ok ih]
    rfl

theorem hasValue_integer {n : Nat} (h : Numeral.isSpellable n = true) :
    (integer (Numeral.decimal n)).HasValue (.int n) := by
  intro options m
  rw [eval, integerValue_decimal h]
  rfl

/-- A name that is not bound stands for the layout that it is the name of. -/
theorem hasValue_var {l : Layout} (h : Layout.primitive? l.kindName = some l) :
    (var l.kindName).HasValue (.type l) := by
  intro options m
  have hget : Scope.empty.get? l.kindName = none := rfl
  rw [eval, variableValue, hget, h]
  rfl

theorem hasValue_call {name : Text} {arguments : List Expr} {values : List Value} {v : Value}
    (h : List.Forall₂ HasValue arguments values) (hcall : Value.call name values = .ok v) :
    (call name arguments).HasValue v := by
  intro options m
  rw [eval, Effect.bind_of_ok (evalItems_of_hasValue h options m), hcall]
  rfl

end Expr

namespace Grammar

/-- An atom by itself. -/
def Atom.alone (a : Atom) : Expression := .sum (.single (.chain (.atom a)))

@[simp] theorem Atom.tokens_alone (a : Atom) : a.alone.tokens = a.tokens := rfl

@[simp] theorem Atom.expr_alone (a : Atom) : a.alone.expr = a.expr := rfl

/-- An expression for a layout: it begins with the layout's name, no semicolon is in it, and
it has the layout as its value. -/
structure Expression.Says [Host] (e : Expression) (l : Layout) : Prop where
  name : ∃ t rest, e.tokens = t :: rest ∧ t.kind = .name ∧ t.text = l.kindName
  kind_ne : ∀ t ∈ e.tokens, t.kind ≠ .semicolon
  value : e.expr.HasValue (.type l)

end Grammar

/-! ### What a rendered layout is -/

namespace Layout

open Token (Scans)
open Grammar (Atom Arguments Expression)

/-- The names of layouts are names. -/
theorem isName_kindName {l : Layout} (h : l.isForeign = false) :
    Token.isName l.kindName = true := by
  cases l with
  | integer kind => cases kind <;> rfl
  | float kind => cases kind <;> rfl
  | rawAddress width => cases width <;> rfl
  | pointer width inner => cases width <;> rfl
  | foreign v => cases h
  | _ => rfl

variable [Host] {l : Layout} {position : Position} {offset : Nat} {behind : Text}

/-- The name of a layout is an expression for it. -/
theorem exists_said_of_primitive (hl : primitive? l.kindName = some l) (h : l.isForeign = false)
    (hrender : l.render = l.kindName)
    (hbehind : ∀ c ∈ behind.head?, Token.isNamePart c = false) :
    ∃ e : Expression, Scans position offset l.render e.tokens behind ∧ e.Says l := by
  refine ⟨Atom.alone (.name ⟨⟨.name, l.kindName, position, offset⟩, List.mem_cons_self⟩), ?_, ?_⟩
  · rw [hrender]
    exact .name (isName_kindName h) hbehind
  · exact ⟨⟨_, [], rfl, rfl, rfl⟩, by simp, Expr.hasValue_var hl⟩

/-- The name of a layout with arguments from which its constructor makes it is an expression
for it. -/
theorem exists_said_of_call {inside : Text} {values : List Value}
    (hcall : Value.call l.kindName values = .ok (.type l)) (h : l.isForeign = false)
    (hrender : l.render = l.kindName ++ ("(" ++ (inside ++ ")")))
    (hinside : ∀ position offset, ∃ a : Arguments,
      Scans position offset inside a.tokens ((')' : CodePoint) :: behind) ∧
        (∀ t ∈ a.tokens, t.kind ≠ .semicolon) ∧ List.Forall₂ Expr.HasValue a.exprs values) :
    ∃ e : Expression, Scans position offset l.render e.tokens behind ∧ e.Says l := by
  obtain ⟨a, hscan, hkind, hvalues⟩ := hinside ((position.behind l.kindName).behind "(")
    (offset + l.kindName.length + 1)
  let name : Token := ⟨.name, l.kindName, position, offset⟩
  let opening : Token := ⟨.leftParen, "(", position.behind l.kindName,
    offset + l.kindName.length⟩
  let closing : Token := ⟨.rightParen, ")",
    ((position.behind l.kindName).behind "(").behind inside,
    offset + l.kindName.length + 1 + inside.length⟩
  refine ⟨Atom.alone (.call ⟨name, List.mem_cons_self⟩ ⟨opening, List.mem_cons_self⟩ (.present a)
    ⟨closing, List.mem_cons_self⟩), ?_, ?_⟩
  · rw [hrender]
    exact (Scans.name (isName_kindName h) (by rintro _ ⟨⟩; decide)).append
      (Scans.leftParen.append (hscan.append .rightParen))
  · refine ⟨⟨_, _, rfl, rfl, rfl⟩, ?_, Expr.hasValue_call hvalues hcall⟩
    simpa [name, opening, closing, or_imp, forall_and] using hkind

/-- A number in decimal, in front of a bracket, is an expression for it. -/
theorem exists_expression_of_decimal {n : Nat} (h : Numeral.isSpellable n = true)
    (position : Position) (offset : Nat) (behind : Text) :
    ∃ e : Expression, Scans position offset (Numeral.decimal n) e.tokens
        ((')' : CodePoint) :: behind) ∧
      (∀ t ∈ e.tokens, t.kind ≠ .semicolon) ∧ e.expr.HasValue (.int n) := by
  have hne : Numeral.decimal n ≠ [] := by simp [Numeral.decimal_natCast, Nat.toDigits_ne_nil]
  refine ⟨Atom.alone (.literal ⟨⟨.int, Numeral.decimal n, position, offset⟩, by simp⟩), ?_, ?_, ?_⟩
  · exact .int hne fun c => Numeral.isDigit_of_mem_decimal
  · simp
  · exact Expr.hasValue_integer h

/-- The name of a layout with a number from which its constructor makes it. -/
theorem exists_said_of_number {n : Nat} (hn : Numeral.isSpellable n = true)
    (hcall : Value.call l.kindName [.int n] = .ok (.type l)) (h : l.isForeign = false)
    (hrender : l.render = l.kindName ++ ("(" ++ (Numeral.decimal n ++ ")"))) :
    ∃ e : Expression, Scans position offset l.render e.tokens behind ∧ e.Says l := by
  refine exists_said_of_call hcall h hrender fun p o => ?_
  obtain ⟨e, hscan, hkind, hvalue⟩ := exists_expression_of_decimal hn p o behind
  exact ⟨.single e, hscan, hkind, .cons hvalue .nil⟩

theorem call_pointer (width : AddressWidth) (inner : Layout) :
    Value.call (pointer width inner).kindName [.type inner] =
      .ok (.type (pointer width inner)) := by
  cases width <;> rfl

omit [Host] in
theorem render_pointer (width : AddressWidth) (inner : Layout) :
    (pointer width inner).render =
      (pointer width inner).kindName ++ ("(" ++ (inner.render ++ ")")) := by
  rw [render, List.append_assoc, List.append_assoc]

theorem call_collection (element : Layout) (n : Nat) :
    Value.call "Collection" [.type element, .int n] = .ok (.type (collection element n)) := rfl

omit [Host] in
theorem render_collection (element : Layout) (n : Nat) :
    (collection element n).render =
      "Collection" ++
        ("(" ++ ((element.render ++ ("," ++ (" " ++ Numeral.decimal n))) ++ ")")) := by
  simp only [render, List.append_assoc]
  rfl

/-- **What a layout is rendered as** is an expression for it. -/
theorem exists_said (hstruct : l.everyPart (fun part => !part.isStruct) = true)
    (hsayable : l.everyPart isSayable = true) (position : Position) (offset : Nat) (behind : Text)
    (hbehind : ∀ c ∈ behind.head?, Token.isNamePart c = false) :
    ∃ e : Expression, Scans position offset l.render e.tokens behind ∧ e.Says l := by
  have hsymbol : ∀ c : CodePoint, Token.isNamePart c = false → ∀ behind : Text,
      ∀ d ∈ (c :: behind).head?, Token.isNamePart d = false := by
    rintro c hc behind _ ⟨⟩
    exact hc
  -- What is inside of the brackets is rendered in front of a bracket or a comma, so the text behind
  -- has to vary.
  induction l generalizing position offset behind with
  | integer kind => exact exists_said_of_primitive (by cases kind <;> rfl) rfl rfl hbehind
  | float kind => exact exists_said_of_primitive (by cases kind <;> rfl) rfl rfl hbehind
  | rawAddress width => exact exists_said_of_primitive (by cases width <;> rfl) rfl rfl hbehind
  | pointer width inner ih =>
    rw [everyPart_pointer] at hstruct hsayable
    refine exists_said_of_call (call_pointer width inner) rfl (render_pointer width inner)
      fun p o => ?_
    obtain ⟨e, hscan, hsaid⟩ := ih hstruct.2 hsayable.2 p o _ (hsymbol ')' (by decide) behind)
    exact ⟨.single e, hscan, hsaid.kind_ne, .cons hsaid.value .nil⟩
  | text length =>
    exact exists_said_of_number hsayable rfl rfl (by rw [render, List.append_assoc]; rfl)
  | wideText length =>
    exact exists_said_of_number hsayable rfl rfl (by rw [render, List.append_assoc]; rfl)
  | struct fields ih => cases (everyPart_struct.mp hstruct).1
  | collection element count ih =>
    rw [everyPart_collection] at hstruct hsayable
    refine exists_said_of_call (call_collection element count) rfl (render_collection element count)
      fun p o => ?_
    obtain ⟨e, hscan, hsaid⟩ := ih hstruct.2 hsayable.2 p o _
      (hsymbol ',' (by decide) (" " ++ (Numeral.decimal count ++ (')' : CodePoint) :: behind)))
    let comma : Token := ⟨.comma, ",", p.behind element.render, o + element.render.length⟩
    obtain ⟨e', hscan', hkind', hvalue'⟩ := exists_expression_of_decimal hsayable.1
      (((p.behind element.render).behind ",").behind " ")
      (o + element.render.length + 1 + 1) behind
    refine ⟨.more (.single e) ⟨comma, List.mem_cons_self⟩ e', ?_, ?_, ?_⟩
    · exact hscan.append (Scans.comma.append (Scans.blank.append hscan'))
    · rw [Arguments.tokens, List.forall_mem_append, List.forall_mem_cons]
      exact ⟨hsaid.kind_ne, nofun, hkind'⟩
    · exact .cons hsaid.value (.cons hvalue' .nil)
  | foreign v => cases (everyPart_foreign.mp hsayable).1

omit [Host] in
/-- The names of layouts are not the word that declarations begin with. -/
theorem kindName_ne_keyword (l : Layout) : l.kindName ≠ Native.keyword := by
  cases l with
  | integer kind => cases kind <;> decide
  | float kind => cases kind <;> decide
  | rawAddress width => cases width <;> decide
  | pointer width inner =>
    cases width
    · exact (by decide : ("Pointer32" : Text) ≠ "native")
    · exact (by decide : ("Pointer64" : Text) ≠ "native")
  | text length => exact (by decide : ("Text" : Text) ≠ "native")
  | wideText length => exact (by decide : ("WideText" : Text) ≠ "native")
  | struct fields => exact (by decide : ("Struct" : Text) ≠ "native")
  | collection element count => exact (by decide : ("Collection" : Text) ≠ "native")
  | foreign v => exact nofun

end Layout

/-! ### Scripts that say a layout -/

namespace Engine

open Grammar (Expression)

section Said

variable [Host] {engine : Engine} {t : Text} {l : Layout}

/-- A script that says a layout is a statement of one expression. -/
theorem parse_of_said {e : Expression} (hscan : Token.scan t = .ok e.tokens) (hsaid : e.Says l)
    (hkeyword : ∀ c ∈ engine.syntaxes, c.keyword ≠ l.kindName) :
    engine.parse t = .ok [.expression e.expr] := by
  obtain ⟨first, rest, htokens, hname, htext⟩ := hsaid.name
  rw [htokens] at hscan
  have hone : ∀ front s back, first :: rest = front ++ s :: back → s.kind = .semicolon →
      Token.depthBehind 0 front ≠ 0 := by
    intro front s back h hs
    refine absurd hs (hsaid.kind_ne s ?_)
    rw [htokens, h]
    exact List.mem_append_right front List.mem_cons_self
  have hform : Statement.form? engine.forms first = none := by
    rw [Statement.form?, if_pos hname, List.find?_eq_none]
    intro form hform
    obtain ⟨c, hc, rfl⟩ := List.mem_map.mp hform
    rw [decide_eq_true_eq, htext]
    exact hkeyword c hc
  have hlet : ∀ t ∈ e.tokens.head?, t.kind ≠ .letWord := by
    rw [htokens]
    rintro _ ⟨⟩
    rw [hname]
    decide
  exact engine.parse_of_derivation hscan hone hform (d := .expression e hlet) htokens

/-- A script of one expression that leaves the machine as it is. -/
theorem run_of_parse {scope : Scope} {e : Expr} {v : Value}
    (hparse : engine.parse t = .ok [.expression e])
    (heval : ∀ m, e.eval engine.options scope m = (.ok v, m)) (m : Machine) :
    engine.run t scope m = (.ok (v, scope), { m with log := m.log ++ [.evaluating 1] }) := by
  have hexecute : ∀ m, engine.execute scope (.expression e) m = (.ok (v, scope), m) := by
    intro m
    rw [execute, Effect.bind_of_ok (heval m)]
    rfl
  have hall : ∀ m, engine.executeAll .unit scope [.expression e] m = (.ok (v, scope), m) := by
    intro m
    rw [executeAll, Effect.bind_of_ok (hexecute m)]
    rfl
  have hlift : ∀ statements, Run.lift (.ok statements : Except Error (List Statement)) m =
      (.ok statements, m) := fun _ => rfl
  rw [run, hparse, Effect.bind_of_ok (hlift _)]
  exact (Effect.bind_of_ok rfl).trans (hall _)

theorem run_of_said {e : Expression} (hscan : Token.scan t = .ok e.tokens) (hsaid : e.Says l)
    (hkeyword : ∀ c ∈ engine.syntaxes, c.keyword ≠ l.kindName) (m : Machine) :
    engine.run t .empty m =
      (.ok (.type l, .empty), { m with log := m.log ++ [.evaluating 1] }) :=
  run_of_parse (parse_of_said hscan hsaid hkeyword) (hsaid.value engine.options) m

/-- **Rendered layouts are scripts.** A layout without structs, of which the lengths and counts
are not too long to be spelled, is rendered, by itself and as a script makes it a text; and that
text, run where no name is bound, has the layout as its value, with the memory left as it is. The
engine may know any forms of statements, but for one that begins with the layout's name. -/
theorem run_describe (hstruct : l.everyPart (fun part => !part.isStruct) = true)
    (hsayable : l.everyPart Layout.isSayable = true) :
    ∃ t, l.describe = .ok t ∧ Value.call "to_string" [.type l] = .ok (.text t) ∧
      (∀ options m, (standard options).run t .empty m =
        (.ok (.type l, .empty), { m with log := m.log ++ [.evaluating 1] })) ∧
      (∀ engine : Engine, (∀ c ∈ engine.syntaxes, c.keyword ≠ l.kindName) → ∀ m,
        engine.run t .empty m =
          (.ok (.type l, .empty), { m with log := m.log ++ [.evaluating 1] })) ∧
      (Value.type l).equal (.type l) = true := by
  obtain ⟨e, hscan, hsaid⟩ := l.exists_said hstruct hsayable .start 0 [] nofun
  have hfault := Layout.renderFault?_eq_none_iff.mpr hsayable
  have hdescribe : l.describe = .ok l.render := by rw [Layout.describe, hfault]; rfl
  have hrun : ∀ engine : Engine, (∀ c ∈ engine.syntaxes, c.keyword ≠ l.kindName) → ∀ m,
      engine.run l.render .empty m =
        (.ok (.type l, .empty), { m with log := m.log ++ [.evaluating 1] }) :=
    fun engine hkeyword => run_of_said hscan.scan hsaid hkeyword
  refine ⟨l.render, hdescribe, ?_, fun options => hrun _ ?_, hrun, ?_⟩
  · change (l.describe).map Value.text = _
    rw [hdescribe]
    rfl
  · intro c hc
    obtain rfl := List.mem_singleton.mp hc
    exact l.kindName_ne_keyword.symm
  · exact Layout.equal_self (Layout.isGenuine_of_renderFault? hfault)

end Said

/-- Layouts inside of each other, behind a pointer. -/
theorem run_describe_nested :
    let l : Layout := .pointer .wide (.collection (.text 12) 3)
    let m : Machine := ⟨{ bytes := [] }, []⟩
    l.describe = .ok "Pointer64(Collection(Text(12), 3))" ∧
    (standard {}).run "Pointer64(Collection(Text(12), 3))" .empty m =
      (.ok (.type l, .empty), { m with log := [.evaluating 1] }) := by
  intro l m
  obtain ⟨t, hdescribe, -, hrun, -⟩ := run_describe (l := l) (by decide) (by decide)
  have htext : l.describe = .ok "Pointer64(Collection(Text(12), 3))" := by rfl
  obtain rfl := Except.ok.inj (hdescribe.symm.trans htext)
  exact ⟨htext, hrun {} m⟩

end Engine

end TypedMemory
