import KnownIssues.Text.Quoted

/-!
# What can be wrong with a JSON text

`Cause` lists the reasons for which a text is refused, with their wording in `Cause.message`.  A
`Fault` is a cause together with the place it was noticed at: the line, counted from 1, and the
number of bytes of that line up to there.
-/

namespace KnownIssues.Json

/-- What stood where a value of another kind was expected. -/
inductive Found where
  | null
  | boolean (b : Bool)
  | integer (n : Int)
  /-- A number that is no integer, with its decimal text. -/
  | real (decimal : String)
  | text (s : String)
  | list
  | object
  deriving DecidableEq, Repr

/-- The name of what was found. -/
def Found.describe : Found → String
  | null => "null"
  | boolean b => "boolean `" ++ (if b then "true" else "false") ++ "`"
  | integer n => "integer `" ++ toString n ++ "`"
  | real decimal => "floating point `" ++ decimal ++ "`"
  | text s => "string " ++ Text.quoted s
  | list => "sequence"
  | object => "map"

/-- Why a text is refused. -/
inductive Cause where
  | endInValue
  | endInText
  | endInList
  | endInObject
  | badWord
  | badEscape
  | controlCharacter
  /-- A surrogate escape that is no first half, or a first half before another escape. -/
  | loneSurrogate
  /-- A first half that no escape follows. -/
  | halfPair
  | badNumber
  | numberOutOfRange
  | noValue
  | noCommaInList
  | noCommaInObject
  | noColon
  | nameNotText
  | trailingComma
  | trailingCharacters
  | wrongKind (found : Found) (expected : String)
  | wrongValue (found : Found) (expected : String)
  | tooShort (length : Nat) (record : String) (fields : Nat)
  | duplicateField (name : String)
  | missingField (name : String)
  deriving DecidableEq, Repr

/-- The wording of a cause. -/
def Cause.message : Cause → String
  | endInValue => "EOF while parsing a value"
  | endInText => "EOF while parsing a string"
  | endInList => "EOF while parsing a list"
  | endInObject => "EOF while parsing an object"
  | badWord => "expected ident"
  | badEscape => "invalid escape"
  | controlCharacter => "control character (\\u0000-\\u001F) found while parsing a string"
  | loneSurrogate => "lone leading surrogate in hex escape"
  | halfPair => "unexpected end of hex escape"
  | badNumber => "invalid number"
  | numberOutOfRange => "number out of range"
  | noValue => "expected value"
  | noCommaInList => "expected `,` or `]`"
  | noCommaInObject => "expected `,` or `\x7d`"
  | noColon => "expected `:`"
  | nameNotText => "key must be a string"
  | trailingComma => "trailing comma"
  | trailingCharacters => "trailing characters"
  | wrongKind found expected => "invalid type: " ++ found.describe ++ ", expected " ++ expected
  | wrongValue found expected => "invalid value: " ++ found.describe ++ ", expected " ++ expected
  | tooShort length record fields =>
    "invalid length " ++ toString length ++ ", expected struct " ++ record ++ " with "
      ++ toString fields ++ " elements"
  | duplicateField name => "duplicate field `" ++ name ++ "`"
  | missingField name => "missing field `" ++ name ++ "`"

/-- A cause and its place. -/
structure Fault where
  cause : Cause
  line : Nat
  column : Nat
  deriving DecidableEq, Repr

/-- The wording of a fault. -/
def Fault.message (f : Fault) : String :=
  f.cause.message ++ " at line " ++ toString f.line ++ " column " ++ toString f.column

/-- The fault that is noticed after the given bytes of the text. -/
def Cause.after (cause : Cause) (before : List UInt8) : Fault where
  cause := cause
  line := 1 + before.count 0x0A
  column := (before.reverse.takeWhile (· ≠ 0x0A)).length

example : (Cause.missingField "ruleId").after [0x20, 0x0A, 0x7b, 0x7d]
    = ⟨.missingField "ruleId", 2, 2⟩ := by decide

end KnownIssues.Json
