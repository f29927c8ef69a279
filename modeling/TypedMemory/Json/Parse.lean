import TypedMemory.Value.Render

/-!
# JSON read as values

An options file holds one JSON value. Objects become records, where the last of several
members of one name counts, numbers without fraction and exponent become whole numbers
and the others floating point. Beyond the standard the words `NaN`, `Infinity` and
`-Infinity` are read as numbers.

A number or an escape is read as far as it goes, and what does not continue as JSON
refuses the text. What is read off the front of a text comes with the text behind it.
Escaped surrogates that form a pair stand for one code point, and a
single one for itself.
-/

namespace TypedMemory

/-- The number nearest to a whole number times a power of ten. From where any such
number is infinite or zero the power itself is not needed. -/
def Binary64.ofScientific (digits : Nat) (exponent : Int) : Binary64 :=
  let top : Int := (Nat.toDigits 10 digits).length + exponent
  if digits = 0 ∨ top < -400 then .ofMagnitude false 0
  else if 400 < top then .infinity false
  else if 0 ≤ exponent then .ofDecimal (digits * Binary64.powerOfTen exponent.toNat) 0
  else .ofDecimal digits (-exponent).toNat

namespace Json

/-- Space, tab and line ends. -/
def isBlank (c : CodePoint) : Bool :=
  c = ' ' || c = '\t' || c = '\n' || c = '\r'

/-- The text without the blanks in front. -/
def skipBlanks (t : Text) : Text := t.dropWhile isBlank

/-- The text behind a word in front of it. -/
def behind? (word t : Text) : Option Text :=
  if word.isPrefixOf t then some (t.drop word.length) else none

/-! ### Texts -/

/-- What the letters of escapes stand for. -/
def escapeLetters : List (CodePoint × CodePoint) :=
  [('"', '"'), ('\\', '\\'), ('/', '/'), ('b', '\x08'), ('f', '\x0c'), ('n', '\n'),
   ('r', '\r'), ('t', '\t')]

/-- The number of four hexadecimal digits. -/
def hex4? (a b c d : CodePoint) : Option Nat := do
  let a ← a.hexDigit?
  let b ← b.hexDigit?
  let c ← c.hexDigit?
  let d ← d.hexDigit?
  pure (((a * 16 + b) * 16 + c) * 16 + d)

/-- A text up to its closing quote, behind its opening one, escapes resolved one by
one. -/
def unescaped : Text → Except Failure (Text × Text)
  | [] => .error .badJson
  | c :: rest =>
    if c = '"' then .ok ([], rest)
    else if c.val < 0x20 then .error .badJson
    else if c = '\\' then
      match rest with
      | [] => .error .badJson
      | e :: rest =>
        if e = 'u' then
          match rest with
          | a :: b :: c :: d :: rest =>
            match hex4? a b c d with
            | some unit => do
              let (t, rest) ← unescaped rest
              pure (CodePoint.ofNat unit :: t, rest)
            | none => .error .badJson
          | _ => .error .badJson
        else
          match escapeLetters.lookup e with
          | some meaning => do
            let (t, rest) ← unescaped rest
            pure (meaning :: t, rest)
          | none => .error .badJson
    else do
      let (t, rest) ← unescaped rest
      pure (c :: t, rest)

/-- The text with its surrogate pairs joined. -/
def joinPairs : Text → Text
  | high :: low :: rest =>
    if high.isHighSurrogate && low.isLowSurrogate then
      CodePoint.ofNat (0x10000 + (high.val - 0xD800) * 0x400 + (low.val - 0xDC00)) ::
        joinPairs rest
    else high :: joinPairs (low :: rest)
  | t => t

/-- A text behind its opening quote. -/
def text (t : Text) : Except Failure (Text × Text) := do
  let (value, rest) ← unescaped t
  pure (joinPairs value, rest)

/-! ### Numbers -/

/-- The digits in front, and what is behind them. -/
def digits (t : Text) : Text × Text :=
  (t.takeWhile CodePoint.isDigit, t.dropWhile CodePoint.isDigit)

/-- A fraction in front: a point and at least one digit. -/
def fraction? (t : Text) : Option (Text × Text) :=
  match t with
  | point :: rest =>
    if point = '.' ∧ (digits rest).1 ≠ [] then some (digits rest) else none
  | [] => none

/-- An exponent in front: a letter, perhaps a sign, and at least one digit. -/
def exponent? (t : Text) : Option (Int × Text) :=
  match t with
  | letter :: rest =>
    if letter = 'e' ∨ letter = 'E' then
      let negative := rest.head? = some ('-' : CodePoint)
      let rest := if negative ∨ rest.head? = some ('+' : CodePoint) then rest.drop 1 else rest
      if (digits rest).1 = [] then none
      else
        let n : Int := Numeral.value 10 (digits rest).1
        some (if negative then -n else n, (digits rest).2)
    else none
  | [] => none

/-- A number without its sign: no digit follows a leading zero. -/
def number (negative : Bool) (t : Text) : Except Failure (Value × Text) :=
  let (whole, rest) :=
    if t.head? = some ('0' : CodePoint) then (t.take 1, t.drop 1) else digits t
  if whole = [] then .error .badJson
  else
    -- A point or a letter that nothing fitting follows is left to whoever reads on.
    let (places, rest, isWhole) := match fraction? rest with
      | some (places, rest) => (places, rest, false)
      | none => ([], rest, true)
    let (power, rest, isWhole) := match exponent? rest with
      | some (power, rest) => (power, rest, false)
      | none => (0, rest, isWhole)
    if isWhole then
      if whole.length ≤ Numeral.digitLimit then
        let n : Int := Numeral.value 10 whole
        .ok (.int (if negative then -n else n), rest)
      else .error .longNumeral
    else
      let x := Binary64.ofScientific (Numeral.value 10 (whole ++ places)) (power - places.length)
      .ok (.float (if negative then x.negate else x) none, rest)

/-! ### Values -/

/-- The words that are values, and what they stand for. -/
def words : List (Text × Value) :=
  [("null", .unit), ("true", .bool true), ("false", .bool false),
   ("NaN", .float Binary64.undefinedResult.negate none),
   ("Infinity", .float (.infinity false) none), ("-Infinity", .float (.infinity true) none)]

/-- A word that is a value. -/
def word? (t : Text) : Option (Value × Text) :=
  words.findSome? fun (word, v) => (behind? word t).map fun rest => (v, rest)

mutual

/-- A value in front of a text, nested no deeper than the given bound. -/
def value : Nat → Text → Except Failure (Value × Text)
  | 0, _ => .error .badJson
  | _, [] => .error .badJson
  | bound + 1, c :: rest =>
    if c = '"' then do
      let (t, rest) ← text rest
      pure (.text t, rest)
    else if c = '[' then
      match skipBlanks rest with
      | [] => .error .badJson
      | d :: behind =>
        if d = ']' then .ok (.array [], behind)
        else do
          let (vs, rest) ← items bound (d :: behind)
          pure (.array vs, rest)
    else if c = '\x7b' then
      match skipBlanks rest with
      | [] => .error .badJson
      | d :: behind =>
        if d = '\x7d' then .ok (.record [], behind)
        else do
          let (es, rest) ← members bound (d :: behind)
          pure (.ofEntries es, rest)
    else
      match word? (c :: rest) with
      | some result => .ok result
      | none => if c = '-' then number true rest else number false (c :: rest)

/-- The items of an array that is not empty, up to its closing bracket. -/
def items : Nat → Text → Except Failure (List Value × Text)
  | 0, _ => .error .badJson
  | bound + 1, t => do
    let (v, rest) ← value bound t
    match skipBlanks rest with
    | [] => .error .badJson
    | c :: rest =>
      if c = ']' then pure ([v], rest)
      else if c = ',' then do
        let (vs, rest) ← items bound (skipBlanks rest)
        pure (v :: vs, rest)
      else .error .badJson

/-- The members of an object that is not empty, up to its closing bracket. -/
def members : Nat → Text → Except Failure (List (Entry Value) × Text)
  | 0, _ => .error .badJson
  | bound + 1, t =>
    match t with
    | [] => .error .badJson
    | q :: rest =>
      if q = '"' then do
        let (name, rest) ← text rest
        match skipBlanks rest with
        | [] => .error .badJson
        | colon :: rest =>
          if colon = ':' then do
            let (v, rest) ← value bound (skipBlanks rest)
            match skipBlanks rest with
            | [] => .error .badJson
            | c :: rest =>
              if c = '\x7d' then pure ([⟨name, v⟩], rest)
              else if c = ',' then do
                let (es, rest) ← members bound (skipBlanks rest)
                pure (⟨name, v⟩ :: es, rest)
              else .error .badJson
          else .error .badJson
      else .error .badJson

end

/-- **The value that a text is the JSON of.** Nothing in a text can be nested deeper
than it has code points. -/
def parse (t : Text) : Except Failure Value := do
  let (v, rest) ← value (t.length + 1) (skipBlanks t)
  if (skipBlanks rest).isEmpty then pure v else .error .badJson

end Json

end TypedMemory
