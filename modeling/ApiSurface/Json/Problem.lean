/-
What can be wrong with a document: its text is not JSON (`TextFault`), or it is JSON of another shape than the one
asked for (`ShapeFault`). Places in the text are not recorded.
-/
import ApiSurface.Json.Printer
import ApiSurface.Text.Printable

namespace ApiSurface.Json

/-! ## Faults of the text -/

/-- why a text is not a JSON document -/
inductive TextFault where
  | endInValue
  | endInList
  | endInObject
  | endInString
  | expectedColon
  | expectedListComma
  | expectedObjectComma
  | expectedWord
  | expectedValue
  | keyNotString
  | invalidEscape
  | invalidNumber
  | numberOutOfRange
  | invalidCodePoint
  | controlCharacter
  | loneSurrogate
  | endOfHexEscape
  | trailingComma
  | trailingCharacters
  | tooDeep
deriving DecidableEq, Repr

def TextFault.message : TextFault → String
  | .endInValue => "EOF while parsing a value"
  | .endInList => "EOF while parsing a list"
  | .endInObject => "EOF while parsing an object"
  | .endInString => "EOF while parsing a string"
  | .expectedColon => "expected `:`"
  | .expectedListComma => "expected `,` or `]`"
  | .expectedObjectComma => "expected `,` or `\x7d`"
  | .expectedWord => "expected ident"
  | .expectedValue => "expected value"
  | .keyNotString => "key must be a string"
  | .invalidEscape => "invalid escape"
  | .invalidNumber => "invalid number"
  | .numberOutOfRange => "number out of range"
  | .invalidCodePoint => "invalid unicode code point"
  | .controlCharacter => "control character (\\u0000-\\u001F) found while parsing a string"
  | .loneSurrogate => "lone leading surrogate in hex escape"
  | .endOfHexEscape => "unexpected end of hex escape"
  | .trailingComma => "trailing comma"
  | .trailingCharacters => "trailing characters"
  | .tooDeep => "recursion limit exceeded"

/-! ## Faults of the shape -/

/-- what was found where something else was expected -/
inductive Found where
  | null
  | bool (value : Bool)
  | number (value : Number)
  | string (value : String)
  | sequence
  | map
deriving DecidableEq, Repr

/-- the wording of a found value -/
def Found.message : Found → String
  | .null => "null"
  | .bool value => "boolean `" ++ writeBool value ++ "`"
  | .number (.int value) => "integer `" ++ value.repr ++ "`"
  | .number (.double value) => "floating point `" ++ numberLayout.render value ++ "`"
  | .string value => "string " ++ Text.displayed value
  | .sequence => "sequence"
  | .map => "map"

/-- why a document does not have the shape asked for -/
inductive ShapeFault where
  | missingField (key : String)
  | duplicateField (key : String)
  | unknownVariant (name : String) (known : List String)
  | invalidType (found : Found) (expected : String)
  | invalidValue (found : Found) (expected : String)
  | invalidLength (length : Nat) (expected : String)
deriving DecidableEq, Repr

def ShapeFault.message : ShapeFault → String
  | .missingField key => "missing field `" ++ key ++ "`"
  | .duplicateField key => "duplicate field `" ++ key ++ "`"
  | .unknownVariant name known =>
    "unknown variant `" ++ name ++ "`, expected one of " ++
      String.intercalate ", " (known.map fun k => "`" ++ k ++ "`")
  | .invalidType found expected => "invalid type: " ++ found.message ++ ", expected " ++ expected
  | .invalidValue found expected => "invalid value: " ++ found.message ++ ", expected " ++ expected
  | .invalidLength length expected => "invalid length " ++ length.repr ++ ", expected " ++ expected

/-! ## Either -/

/-- why reading a document failed -/
inductive Problem where
  | text (fault : TextFault)
  | shape (fault : ShapeFault)
deriving DecidableEq, Repr

/-- the wording of a problem -/
def Problem.message : Problem → String
  | .text fault => fault.message
  | .shape fault => fault.message

/-- the outcome of reading a part of a document -/
abbrev Outcome (α : Type) := Except Problem α

end ApiSurface.Json
