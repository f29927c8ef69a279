import TypedMemory.Host

/-!
# What can go wrong

Every failure is a **cause**, with the names, numbers and places it is about, and
its wording is one function of the cause, `Error.message`. A few failures have no
wording here and are known by their label alone: `Failure`.

A message that would have to spell a number beyond the limit of
`Numeral.isSpellable` cannot be given, and its failure turns into the failure to
spell that number. `Error.raised` is the one place that decides this, and every
failure is raised through it by `Error.fail`.
-/

namespace TypedMemory

/-- A place in a script: line and column from one on, columns in code points. -/
structure Position where
  line : Nat
  column : Nat
  deriving DecidableEq

/-- A failure without a wording of its own. -/
inductive Failure
  /-- A decimal numeral is longer than the limit. -/
  | longNumeral
  /-- A value of the right kind that makes no sense. -/
  | badValue
  /-- A value of the wrong kind. -/
  | badKind
  /-- A part is asked of a value that has none. -/
  | noAttribute
  /-- A string literal has a malformed escape. -/
  | badLiteral
  /-- A surrogate stands where text has to be encoded. -/
  | surrogate
  /-- A file is not in the encoding of texts. -/
  | badBytes
  | badJson
  | unknownEncoding
  /-- A whole number is out of the range of floating point, or of a size. -/
  | tooLarge
  /-- There is no room for so many bytes. -/
  | outOfMemory
  /-- The first item is asked of nothing. -/
  | noItem
  /-- The device behind a memory has failed. -/
  | deviceGone
  | noSuchFile
  /-- A directory stands where a file is expected. -/
  | isDirectory
  /-- A file stands where a directory is expected. -/
  | notADirectory
  /-- A path, or a name in it, is longer than files have. -/
  | nameTooLong
  /-- A codec of the host has failed, in a way that it has a label for. -/
  | codec (label : Text)
  deriving DecidableEq

/-- The label a failure is known by. -/
def Failure.label : Failure → Text
  | longNumeral | badValue => "ValueError"
  | badKind => "TypeError"
  | noAttribute => "AttributeError"
  | badLiteral => "SyntaxError"
  | surrogate => "UnicodeEncodeError"
  | badBytes => "UnicodeDecodeError"
  | badJson => "JSONDecodeError"
  | unknownEncoding => "LookupError"
  | tooLarge => "OverflowError"
  | outOfMemory => "MemoryError"
  | noItem => "IndexError"
  | deviceGone | nameTooLong => "OSError"
  | noSuchFile => "FileNotFoundError"
  | isDirectory => "IsADirectoryError"
  | notADirectory => "NotADirectoryError"
  | codec label => label

/-! ### Causes -/

/-- Why a script does not parse. -/
inductive ParseCause
  | unexpectedCharacter (c : CodePoint)
  | unexpectedEnd
  | unexpectedToken (token : Text)
  /-- A declaration stops where more is expected. -/
  | statementEnded (keyword expected : Text)
  | expectedExpression (found : Text)
  | expectedPiece (expected keyword found : Text)
  /-- A declaration goes on where it is complete. -/
  | trailing (token keyword : Text)
  | paddingNotLiteral (block : Text)
  | fieldWithoutType (field block : Text)
  | unhandledPiece (piece block : Text)
  | emptyBlock (block : Text)
  deriving DecidableEq

/-- Why an expression has no value. -/
inductive EvaluationCause
  | notAnInteger (what kind : Text)
  | negative (what : Text) (n : Int)
  | notAType (what kind : Text)
  | notAnAddress (what kind : Text)
  | undefinedVariable (name : Text)
  | notAStruct (kind : Text)
  | undefinedFunction (name : Text)
  | wrongArity (name : Text) (takes got : Nat)
  | noField (name : Text)
  | noAttribute (kind name : Text)
  | indexOutOfRange (index : Int) (length : Nat)
  | notIndexable (kind : Text)
  | readArguments
  | writeArguments
  | noMethod (kind name : Text)
  | cannotNegate (kind : Text)
  | cannotAdd (left right : Text)
  | cannotSubtract (left right : Text)
  | constant (name : Text)
  | notAFieldType (kind field block : Text)
  deriving DecidableEq

/-- Why an access to memory fails. -/
inductive MemoryCause
  /-- The access leaves the range from the first address to the one past the last. -/
  | outOfRange (count : Int) (first past : Int)
  | readOnly
  | shortRead (expected got : Nat)
  | deviceGone
  deriving DecidableEq

/-- Why a value has no coded form. -/
inductive EncodeCause
  | text (shown encoding : Text) (fault : Encoding.Fault)
  /-- A whole number is out of the range of floating point. -/
  | hugeInteger (n : Int) (slot : Text)
  /-- A number is out of the range of the 32-bit format. -/
  | hugeFloat (shown slot : Text)
  deriving DecidableEq

/-- Why a value does not have the shape its layout asks for. -/
inductive ShapeCause
  | notAnInteger (slot kind : Text)
  | notANumber (slot kind : Text)
  | notAnAddress (slot kind : Text)
  | notAString (slot kind : Text)
  | textTooLong (shown slot : Text) (takes holds : Nat)
  | notARecord (kind : Text)
  | missingField (name : Text)
  | notASequence (kind : Text)
  | wrongLength (expected got : Nat)
  deriving DecidableEq

/-- Why a part of a layout, or an option, cannot have the value given for it. -/
inductive InvalidCause
  | noInteger (signed : Bool) (width : Int)
  /-- A width other than four and eight bytes. -/
  | width (what : Text) (width : Int)
  | negative (what : Text) (n : Int)
  | byteOrder (shown : Text)
  deriving DecidableEq

/-- A failure and its cause. -/
inductive Error
  | parse (cause : ParseCause) (position : Option Position)
  | evaluation (cause : EvaluationCause)
  /-- A failure that is not about scripts, met while evaluating a node of the given
  rule. -/
  | during (rule : Text) (cause : Error)
  | unresolvedType (field block : Text) (cause : Error)
  /-- Two fields of a struct are placed at one offset. -/
  | overlap (new old : Text) (offset : Int)
  | memoryAccess (address : Int) (cause : MemoryCause)
  | decode (address : Int) (encoding : Text) (fault : Encoding.Fault)
  | encode (cause : EncodeCause)
  | shape (cause : ShapeCause)
  | invalid (cause : InvalidCause)
  | notAnAddress (kind : Text)
  | notALayout (shown : Text)
  | failure (cause : Failure)
  deriving DecidableEq

/-! ### Wording -/

open Numeral (decimal hex)

/-- The wording of a parse error, without its place. -/
def ParseCause.message : ParseCause → Text
  | unexpectedCharacter c => "unexpected character " ++ Text.ticked [c]
  | unexpectedEnd => "unexpected end of input"
  | unexpectedToken token => "unexpected " ++ token.ticked
  | statementEnded keyword expected => keyword.ticked ++ " statement ended, expected " ++ expected
  | expectedExpression found => "expected an expression, found " ++ found.ticked
  | expectedPiece expected keyword found =>
    "expected " ++ expected ++ " in " ++ keyword.ticked ++ " statement, found " ++ found.ticked
  | trailing token keyword =>
    "unexpected " ++ token.ticked ++ " after " ++ keyword.ticked ++ " statement"
  | paddingNotLiteral block =>
    "padding in " ++ block.ticked ++ " must be a constant integer literal"
  | fieldWithoutType field block =>
    "field " ++ field.ticked ++ " in " ++ block.ticked ++ " has no type"
  | unhandledPiece piece block =>
    "unhandled input " ++ piece.ticked ++ " in native block " ++ block.ticked
  | emptyBlock block => "native block " ++ block.ticked ++ " is empty"

/-- The wording of an evaluation error. -/
def EvaluationCause.message : EvaluationCause → Text
  | notAnInteger what kind => what ++ " must be an integer, got " ++ kind
  | negative what n => what ++ " must not be negative, got " ++ decimal n
  | notAType what kind => what ++ " must be a type, got " ++ kind
  | notAnAddress what kind => what ++ " must be an address, got " ++ kind
  | undefinedVariable name => "variable " ++ name.ticked ++ " is not defined"
  | notAStruct kind => "Struct expects a native struct, got " ++ kind
  | undefinedFunction name => "function " ++ name.ticked ++ " is not defined"
  | wrongArity name takes got =>
    name.ticked ++ " takes " ++ decimal takes ++ " argument" ++ (if takes = 1 then "" else "s") ++
      ", got " ++ decimal got
  | noField name => "record has no field " ++ name.ticked
  | noAttribute kind name => kind ++ " has no attribute " ++ name.ticked
  | indexOutOfRange index length =>
    "array index " ++ decimal index ++ " out of range for length " ++ decimal length
  | notIndexable kind => kind ++ " cannot be indexed"
  | readArguments => "read expects (type, address) or (pointer)"
  | writeArguments => "write expects (type, address, value) or (pointer, value)"
  | noMethod kind name => kind ++ " has no method " ++ name.ticked
  | cannotNegate kind => "cannot negate " ++ kind
  | cannotAdd left right => "cannot add " ++ left ++ " and " ++ right
  | cannotSubtract left right => "cannot subtract " ++ right ++ " from " ++ left
  | constant name => "cannot assign to constant " ++ name.ticked
  | notAFieldType kind field block =>
    "cannot use " ++ kind ++ " as the type of " ++ field.ticked ++ " in " ++ block.ticked

/-- The wording of a failed memory access, without its address. -/
def MemoryCause.message : MemoryCause → Text
  | outOfRange count first past =>
    decimal count ++ " bytes out of range " ++ hex first ++ "-" ++ hex past
  | readOnly => "memory is read-only"
  | shortRead expected got =>
    "short read, expected " ++ decimal expected ++ " bytes, got " ++ decimal got
  | deviceGone => "device gone"

/-- The wording of an encoding error. -/
def EncodeCause.message : EncodeCause → Text
  | text shown encoding fault =>
    shown ++ " cannot be encoded as " ++ encoding ++ ": " ++ fault.message
  | hugeInteger n slot =>
    decimal n ++ " does not fit " ++ slot ++ ": int too large to convert to float"
  | hugeFloat shown slot =>
    shown ++ " does not fit " ++ slot ++ ": float too large to pack with f format"

/-- The wording of a value of the wrong shape. -/
def ShapeCause.message : ShapeCause → Text
  | notAnInteger slot kind => slot ++ " expects an integer, got " ++ kind
  | notANumber slot kind => slot ++ " expects a number, got " ++ kind
  | notAnAddress slot kind => slot ++ " expects an address, got " ++ kind
  | notAString slot kind => slot ++ " expects a string, got " ++ kind
  | textTooLong shown slot takes holds =>
    shown ++ " takes " ++ decimal takes ++ " bytes, " ++ slot ++ " holds " ++ decimal holds
  | notARecord kind => "Struct expects a record, got " ++ kind
  | missingField name => "record is missing field " ++ name.ticked
  | notASequence kind => "Collection expects a sequence, got " ++ kind
  | wrongLength expected got =>
    "Collection expects " ++ decimal expected ++ " elements, got " ++ decimal got

/-- The wording of a value that something cannot have. -/
def InvalidCause.message : InvalidCause → Text
  | noInteger signed bytes =>
    "no " ++ (if signed then "signed" else "unsigned") ++ " integer of width " ++ decimal bytes
  | width what bytes => what ++ " width must be one of [4, 8], not " ++ decimal bytes
  | negative what n => what ++ " must not be negative, not " ++ decimal n
  | byteOrder shown => "byteorder must be 'little' or 'big', not " ++ shown

namespace Error

/-- The failures that are about this library's own matters: scripts, layouts, memory
and values. -/
def isOwn : Error → Bool
  | invalid _ | notAnAddress _ | notALayout _ | failure _ => false
  | _ => true

/-- **The wording of a failure.** One without a wording shows its label in angle
brackets. -/
def message : Error → Text
  | parse cause none => cause.message
  | parse cause (some position) =>
    cause.message ++ " (line " ++ decimal position.line ++ ", column " ++
      decimal position.column ++ ")"
  | evaluation cause => cause.message
  | during rule cause => rule ++ ": " ++ cause.message
  | unresolvedType field block cause =>
    "failed to resolve the type of " ++ field.ticked ++ " in " ++ block.ticked ++ ": " ++
      cause.message
  | overlap new old offset =>
    "field " ++ new.ticked ++ " overlaps field " ++ old.ticked ++ " at offset " ++ decimal offset
  | memoryAccess address cause =>
    "memory access at " ++ hex address ++ " failed: " ++ cause.message
  | decode address encoding fault =>
    "text at " ++ hex address ++ " is not valid " ++ encoding ++ ": " ++ fault.message
  | encode cause => cause.message
  | shape cause => cause.message
  | invalid cause => cause.message
  | notAnAddress kind => "Expected an address, got " ++ kind
  | notALayout shown => "Not a type descriptor: " ++ shown
  | failure cause => "<" ++ cause.label ++ ">"

/-- The numbers that the wording has to spell in decimal and that nothing bounds. -/
def numerals : Error → List Int
  | evaluation (.negative _ n) => [n]
  | evaluation (.indexOutOfRange index _) => [index]
  | overlap _ _ offset => [offset]
  | memoryAccess _ (.outOfRange count _ _) => [count]
  | memoryAccess _ (.shortRead expected _) => [expected]
  | encode (.hugeInteger n _) => [n]
  | shape (.textTooLong _ _ _ holds) => [holds]
  | shape (.wrongLength expected _) => [expected]
  | invalid (.noInteger _ width) => [width]
  | invalid (.width _ width) => [width]
  | invalid (.negative _ n) => [n]
  | _ => []

/-- The failure that is met when this one is raised: itself, unless its wording has
to spell a number beyond the limit. -/
def raised (e : Error) : Error :=
  if e.numerals.all Numeral.isSpellable then e else failure .longNumeral

/-- Fail with this cause. -/
def fail {α : Type} (e : Error) : Except Error α :=
  .error e.raised

end Error

/-- A number that some text is about to spell, or the failure to spell it. -/
def spellable (n : Int) : Except Error Unit :=
  if Numeral.isSpellable n then .ok () else .error (.failure .longNumeral)

end TypedMemory
