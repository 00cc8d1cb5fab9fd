/-
Constant values: the defaults of parameters and the values of constant fields, and their text in a declaration.
-/
import ApiSurface.Json.Tagged

namespace ApiSurface

inductive Literal where
  | null
  | bool (value : Bool)
  | int (value : Int64)
  | uint (value : UInt64)
  | float (value : Double)
  | char (value : Char)
  | string (value : String)
deriving DecidableEq, Repr

namespace Literal

/-! ## Text in a declaration -/

/-- numbers are positional from `1e-4` up to below `1e16`, with at least one decimal; a tie goes up -/
def floatLayout : Double.Layout := ⟨-4, 15, false, .up⟩

/-- the characters that show nothing -/
def isControl (c : Char) : Bool := decide (c.toNat < 32 ∨ 127 ≤ c.toNat ∧ c.toNat < 160)

/-- one character between quotes; a control character is escaped by its four-digit number -/
def escaped (quote c : Char) : List Char :=
  if c = '\\' then ['\\', '\\']
  else if c = '\n' then ['\\', 'n']
  else if c = '\r' then ['\\', 'r']
  else if c = '\t' then ['\\', 't']
  else if c = '\x00' then ['\\', '0']
  else if c = quote then ['\\', c]
  else if isControl c then ['\\', 'u', '0', '0', Json.hexDigit (c.toNat / 16), Json.hexDigit c.toNat]
  else [c]

/-- characters between quotes -/
def enclosed (quote : Char) (text : List Char) : String :=
  String.ofList (quote :: (text.flatMap (escaped quote) ++ [quote]))

def render : Literal → String
  | .null => "null"
  | .bool b => Json.writeBool b
  | .int n => n.toInt.repr
  | .uint n => n.toNat.repr
  | .float d => floatLayout.render d
  | .char c => enclosed '\'' [c]
  | .string s => enclosed '"' s.toList

/-! ## Documents -/

open Json

inductive Kind where
  | null
  | bool
  | int
  | uint
  | float
  | char
  | string
deriving DecidableEq, Repr

def Kind.names : List (String × Kind) :=
  [("null", .null), ("bool", .bool), ("int", .int), ("u_int", .uint), ("float", .float), ("char", .char),
    ("string", .string)]

/-- an object with the name of a kind and the content -/
def labelledJson (kind : String) (content : Json) : Json :=
  .object (member "kind" (.string kind) ++ member "value" content)

/-- the value for a constant; there is none for a number that is not finite -/
def toJson : Literal → Json
  | .null => .object (member "kind" (.string "null"))
  | .bool b => labelledJson "bool" (.bool b)
  | .int n => labelledJson "int" (.number (.int n.toInt))
  | .uint n => labelledJson "u_int" (.nat n.toNat)
  | .float d => labelledJson "float" (if d.isFinite then .number (.double d) else .null)
  | .char c => labelledJson "char" (.string (String.ofList [c]))
  | .string s => labelledJson "string" (.string s)

/-- read the content of a kind -/
def content : Kind → Decoder Literal
  | .null => fun _ draft =>
    match draft with
    | .null => .ok .null
    | .array true _ _ => .error (.text .tooDeep)
    | .object true _ _ => .error (.text .tooDeep)
    | draft => refuse "unit variant Literal::Null" draft
  | .bool => fun source draft => (Decoder.bool source draft).map Literal.bool
  | .int => fun source draft => (Decoder.int64 source draft).map Literal.int
  | .uint => fun source draft => (Decoder.word64 "u64" source draft).map Literal.uint
  | .float => fun source draft => (Decoder.double source draft).map Literal.float
  | .char => fun source draft => (Decoder.character source draft).map Literal.char
  | .string => fun source draft => (Decoder.string source draft).map Literal.string

/-- the constant of a kind that needs no content -/
def bare : Kind → Option Literal
  | .null => some .null
  | _ => none

def decoder : Decoder Literal :=
  labelled "kind" "value" Kind.names "adjacently tagged enum Literal" content bare

end Literal

end ApiSurface
