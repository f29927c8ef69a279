import TypedMemory.Host

/-!
# String literals

The value of a string literal in a script: the text between its two double
quotes with the escapes resolved. A backslash and a letter stand for the usual
control, up to three octal digits or the given number of hexadecimal ones after
`x`, `u` and `U` for the code point with that number, a name between braces after
`N` for the code point that the host knows by it, and an escaped carriage return
for nothing at all. A backslash before anything else is kept.

A literal can be **refused** for three reasons, and where several apply the first
in this order is the one told: it holds a surrogate that was not written as an
escape, it holds a NUL that was not, or it is malformed: it goes on over a
carriage return or one of its escapes is no escape.
-/

namespace TypedMemory.Text

/-- Why a string literal has no value. -/
inductive LiteralFault
  | surrogate
  | nul
  | malformed
  deriving DecidableEq

/-- The code point written by exactly `count` hexadecimal digits, and the rest. -/
def hexPoint? (count : Nat) (t : Text) : Option (CodePoint × Text) := do
  let ds ← (t.take count).mapM CodePoint.hexDigit?
  if ds.length = count then
    let c ← CodePoint.ofNat? (ds.foldl (fun n d => n * 16 + d) 0)
    pure (c, t.drop count)
  else none

/-- An octal digit. -/
def isOctal (c : CodePoint) : Bool :=
  48 ≤ c.val && c.val ≤ 55

/-- The code point written by up to three octal digits, the first of them given. -/
def octalPoint (ds : Text) : CodePoint :=
  CodePoint.ofNat (ds.foldl (fun n d => n * 8 + (d.val - 48)) 0)

/-- The code point of a name between braces, and the rest. A name goes on up to the first closing
brace and not over the end of a line. -/
def namedPoint? [Host] : Text → Option (CodePoint × Text)
  | [] => none
  | brace :: t =>
    let name := t.takeWhile (· ≠ ('\x7d' : CodePoint))
    match t.drop name.length with
    | [] => none
    | _ :: rest =>
      if brace = '\x7b' ∧ name ≠ [] ∧ ('\r' : CodePoint) ∉ name then
        (Host.character? name).map fun c => (c, rest)
      else none

/-- What the escape letters stand for. -/
def escapeLetters : List (CodePoint × CodePoint) :=
  [('\\', '\\'), ('\'', '\''), ('"', '"'), ('a', '\x07'), ('b', '\x08'), ('f', '\x0c'),
   ('n', '\n'), ('r', '\r'), ('t', '\t'), ('v', '\x0b')]

/-- What an escape stands for, from the text behind its backslash, and the text
behind the escape. -/
def escape? [Host] : Text → Option (Text × Text)
  | [] => none
  | c :: rest =>
    if c = '\r' then some ([], rest)
    else if c = 'x' then (hexPoint? 2 rest).map fun (c, rest) => ([c], rest)
    else if c = 'u' then (hexPoint? 4 rest).map fun (c, rest) => ([c], rest)
    else if c = 'U' then (hexPoint? 8 rest).map fun (c, rest) => ([c], rest)
    else if c = 'N' then (namedPoint? rest).map fun (c, rest) => ([c], rest)
    else if isOctal c then
      let more := (rest.take 2).takeWhile isOctal
      some ([octalPoint (c :: more)], rest.drop more.length)
    else match escapeLetters.lookup c with
      | some meaning => some ([meaning], rest)
      | none => some (['\\', c], rest)

theorem hexPoint?_length {count : Nat} {t rest : Text} {c : CodePoint}
    (h : hexPoint? count t = some (c, rest)) : rest.length ≤ t.length := by
  unfold hexPoint? at h
  cases hm : (t.take count).mapM CodePoint.hexDigit? with
  | none => simp [hm] at h
  | some ds =>
    simp only [hm, Option.pure_def, Option.bind_eq_bind, Option.bind_some] at h
    split at h
    · simp only [Option.bind_eq_some_iff, Option.some.injEq, Prod.mk.injEq] at h
      obtain ⟨_, _, _, rfl⟩ := h
      simp
    · simp at h

theorem namedPoint?_length [Host] {t rest : Text} {c : CodePoint}
    (h : namedPoint? t = some (c, rest)) : rest.length ≤ t.length := by
  cases t with
  | nil => simp [namedPoint?] at h
  | cons brace t =>
    simp only [namedPoint?] at h
    split at h
    · cases h
    · next hdrop =>
      have hlength := congrArg List.length hdrop
      split at h
      · obtain ⟨_, _, heq⟩ := Option.map_eq_some_iff.mp h
        cases heq
        simp only [List.length_drop, List.length_cons] at hlength ⊢
        omega
      · cases h

/-- **An escape is read off the front**: what is left is no longer than before. -/
theorem escape?_length [Host] {t rest out : Text} (h : escape? t = some (out, rest)) :
    rest.length ≤ t.length := by
  cases t with
  | nil => simp [escape?] at h
  | cons c t =>
    have step {found : Option (CodePoint × Text)}
        (hfound : ∀ c rest, found = some (c, rest) → rest.length ≤ t.length)
        (hp : found.map (fun (c, rest) => ([c], rest)) = some (out, rest)) :
        rest.length ≤ (c :: t).length := by
      simp only [Option.map_eq_some_iff, Prod.mk.injEq, Prod.exists] at hp
      obtain ⟨_, _, hp, _, rfl⟩ := hp
      exact Nat.le_succ_of_le (hfound _ _ hp)
    simp only [escape?] at h
    split at h
    · cases h; simp
    split at h
    · exact step (fun _ _ => hexPoint?_length) h
    split at h
    · exact step (fun _ _ => hexPoint?_length) h
    split at h
    · exact step (fun _ _ => hexPoint?_length) h
    split at h
    · exact step (fun _ _ => namedPoint?_length) h
    split at h
    · cases h
      simp only [List.length_drop, List.length_cons]
      omega
    cases hl : escapeLetters.lookup c <;> rw [hl] at h <;> cases h <;> simp

/-- The text between the quotes with its escapes resolved. -/
def unescape? [Host] (t : Text) : Option Text :=
  match t with
  | [] => some []
  | c :: rest =>
    if c = '\r' then none
    else if c = '\\' then
      match h : escape? rest with
      | none => none
      | some (out, after) =>
        have : after.length ≤ rest.length := escape?_length h
        (unescape? after).map (out ++ ·)
    else (unescape? rest).map (c :: ·)
termination_by t.length
decreasing_by all_goals simp only [List.length_cons]; omega

/-- The text between the two quotes of a literal. -/
def unquoted (t : Text) : Text :=
  (t.drop 1).dropLast

/-- The value of a string literal, given with its quotes. -/
def ofLiteral [Host] (t : Text) : Except LiteralFault Text :=
  if t.any CodePoint.isSurrogate then throw .surrogate
  else if t.any (·.val == 0) then throw .nul
  else match unescape? t.unquoted with
    | some value => pure value
    | none => throw .malformed

end TypedMemory.Text
