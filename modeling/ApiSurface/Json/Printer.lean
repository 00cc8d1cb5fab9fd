/-
Writing JSON: compact, without blanks; pretty, two blanks a level; canonical, compact with every object's keys sorted.
Inside strings only the quote, the backslash and the characters below U+0020 are escaped.
-/
import ApiSurface.Json.Basic
import ApiSurface.Double.Shortest

namespace ApiSurface.Json

/-! ## Scalars -/

/-- numbers are positional from `1e-5` up to below `1e16`, with at least one decimal; a tie goes to the even digit -/
def numberLayout : Double.Layout := ⟨-5, 15, true, .toEven⟩

def writeNumber : Number → String
  | .int value => value.repr
  | .double value => numberLayout.render value

/-- the lowercase hexadecimal digit of a number below sixteen -/
def hexDigit (n : Nat) : Char := Nat.digitChar (n % 16)

/-- the written form of one character of a string -/
def escaped (c : Char) : List Char :=
  if c = '"' then ['\\', '"']
  else if c = '\\' then ['\\', '\\']
  else if c = '\n' then ['\\', 'n']
  else if c = '\r' then ['\\', 'r']
  else if c = '\t' then ['\\', 't']
  else if c = '\x08' then ['\\', 'b']
  else if c = '\x0c' then ['\\', 'f']
  else if c.toNat < 32 then ['\\', 'u', '0', '0', hexDigit (c.toNat / 16), hexDigit c.toNat]
  else [c]

def quoted (s : String) : String := "\"" ++ String.ofList (s.toList.flatMap escaped) ++ "\""

def writeBool (b : Bool) : String := if b then "true" else "false"

/-! ## Compact text -/

mutual

/-- the text of a value without blanks -/
def compact : Json → String
  | .null => "null"
  | .bool b => writeBool b
  | .number n => writeNumber n
  | .string s => quoted s
  | .array items => "[" ++ String.intercalate "," (compactItems items) ++ "]"
  | .object members => "\x7b" ++ String.intercalate "," (compactMembers members) ++ "\x7d"

def compactItems : List Json → List String
  | [] => []
  | item :: rest => compact item :: compactItems rest

def compactMembers : List (String × Json) → List String
  | [] => []
  | (key, value) :: rest => (quoted key ++ ":" ++ compact value) :: compactMembers rest

end

/-! ## Pretty text -/

/-- a line break and the indentation of a level -/
def newline (level : Nat) : String := "\n" ++ String.ofList (List.replicate (2 * level) ' ')

/-- entries between brackets, one a line; no line break when there is none -/
def block (opening closing : String) (level : Nat) (entries : List String) : String :=
  if entries.isEmpty then opening ++ closing
  else opening ++ newline (level + 1) ++ String.intercalate ("," ++ newline (level + 1)) entries ++
    newline level ++ closing

mutual

/-- the text of a value at a level of indentation -/
def prettyAt (level : Nat) : Json → String
  | .null => "null"
  | .bool b => writeBool b
  | .number n => writeNumber n
  | .string s => quoted s
  | .array items => block "[" "]" level (prettyItems (level + 1) items)
  | .object members => block "\x7b" "\x7d" level (prettyMembers (level + 1) members)

def prettyItems (level : Nat) : List Json → List String
  | [] => []
  | item :: rest => prettyAt level item :: prettyItems level rest

def prettyMembers (level : Nat) : List (String × Json) → List String
  | [] => []
  | (key, value) :: rest => (quoted key ++ ": " ++ prettyAt level value) :: prettyMembers level rest

end

/-- the text of a value with line breaks -/
def pretty (value : Json) : String := prettyAt 0 value

/-! ## Canonical text -/

/-- the text that depends only on the value: keys sorted, no blanks -/
def canonical (value : Json) : String := value.sorted.compact

end ApiSurface.Json
