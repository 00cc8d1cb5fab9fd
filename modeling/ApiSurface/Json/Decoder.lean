/-
Reading typed values from drafts. A decoder walks its draft in document order and stops at the first problem, so of
several faults the earliest one is reported. `Json.read` runs a decoder on a text, `Json.decode` on a value in memory.

A value reaches its decoder in one of three ways. Read straight from the text, a value of the wrong shape can leave the
text at a place where something else has to come, which is a fault of the text. A value that was first read as a whole,
because its type is named beside it or its members belong to two records, is well formed when its decoder sees it, and
so is a value in memory; these two differ in a few wordings only.
-/
import ApiSurface.Json.Draft

namespace ApiSurface.Json

/-- how a value reaches its decoder -/
inductive Source where
  | streamed
  | buffered
  | inMemory
deriving DecidableEq, Repr

/-- a reader of typed values -/
abbrev Decoder (α : Type) := Source → Draft → Outcome α

/-! ## Looking at a value -/

/-- what a value is, unless a fault hides it -/
def Draft.found : Draft → Outcome Found
  | .null => .ok .null
  | .bool b => .ok (.bool b)
  | .number n => .ok (.number n)
  | .string s => .ok (.string s)
  | .array _ _ _ => .ok .sequence
  | .object _ _ _ => .ok .map
  | .unreadable fault => .error (.text fault)
  | .broken fault => .error (.text fault)

/-- refuse a value for its type -/
def refuse {α : Type} (expected : String) (draft : Draft) : Outcome α := do
  let found ← draft.found
  throw (.shape (.invalidType found expected))

/-- stop at a fault of the text, if there is one -/
def stopAt : Option TextFault → Outcome Unit
  | some fault => .error (.text fault)
  | none => .ok ()

/-- enter a container, unless it is nested too deep -/
def enter (deep : Bool) : Outcome Unit := stopAt (if deep then some .tooDeep else none)

/-- read all of a value, without a type -/
def Draft.buffer (draft : Draft) : Outcome Unit := stopAt draft.fault?

/-! ## Scalars -/

namespace Decoder

def string : Decoder String := fun _ draft =>
  match draft with
  | .string s => .ok s
  | draft => refuse "a string" draft

/-- a string of one character -/
def character : Decoder Char := fun _ draft =>
  match draft with
  | .string s =>
    match s.toList with
    | [c] => .ok c
    | _ => .error (.shape (.invalidValue (.string s) "a character"))
  | draft => refuse "a character" draft

def bool : Decoder Bool := fun _ draft =>
  match draft with
  | .bool b => .ok b
  | draft => refuse "a boolean" draft

/-- an integer from `least` up to but not including `bound` -/
def integer (expected : String) (least bound : Int) : Decoder Int := fun _ draft =>
  match draft with
  | .number (.int n) =>
    if least ≤ n ∧ n < bound then .ok n
    else .error (.shape (.invalidValue (.number (.int n)) expected))
  | draft => refuse expected draft

def word32 : Decoder UInt32 := fun source draft =>
  (integer "u32" 0 UInt32.size source draft).map fun n => UInt32.ofNat n.toNat

/-- an unsigned integer of 64 bits, under the name of its type -/
def word64 (expected : String) : Decoder UInt64 := fun source draft =>
  (integer expected 0 UInt64.size source draft).map fun n => UInt64.ofNat n.toNat

def int64 : Decoder Int64 := fun source draft =>
  (integer "i64" Int64.minValue.toInt (Int64.maxValue.toInt + 1) source draft).map Int64.ofInt

def double : Decoder Double := fun _ draft =>
  match draft with
  | .number (.double d) => .ok d
  | .number (.int n) =>
    let magnitude := Double.nearest n.natAbs 1
    .ok (if n < 0 then magnitude.neg else magnitude)
  | draft => refuse "f64" draft

/-- nothing but `null`; a value read before may also be an empty object -/
def unit : Decoder Unit := fun source draft =>
  match source, draft with
  | _, .null => .ok ()
  | .buffered, .object false [] none => .ok ()
  | _, draft => refuse "unit" draft

/-! ## Combinations -/

def optional {α : Type} (decoder : Decoder α) : Decoder (Option α) := fun source draft =>
  match draft with
  | .null => .ok none
  | draft => (decoder source draft).map some

def list {α : Type} (decoder : Decoder α) : Decoder (List α) := fun source draft =>
  match draft with
  | .array deep items ending => do
    enter deep
    let values ← items.mapM (decoder source)
    stopAt ending
    return values
  | draft => refuse "a sequence" draft

/-- the name of a variant among those known -/
def variant {α : Type} (known : List (String × α)) (name : String) : Outcome α :=
  match known.lookup name with
  | some value => .ok value
  | none => .error (.shape (.unknownVariant name (known.map Prod.fst)))

/-- one of several names, also as an object with the name as its key and `null` for value -/
def oneOf {α : Type} (known : List (String × α)) : Decoder α := fun source draft =>
  match source, draft with
  | _, .string name => variant known name
  | .streamed, .object deep members ending => do
    enter deep
    match members with
    | [] => throw (.text (ending.getD .expectedValue))
    | (key, value) :: rest =>
      let name ← key.mapError .text
      let result ← variant known name
      unit source value
      match rest, ending with
      | [], none => return result
      | [], some .endInObject => throw (.text .endInObject)
      | _, _ => throw (.text .expectedValue)
  | .streamed, draft => do
    let _ ← draft.found
    throw (.text .expectedValue)
  | _, .object _ [(key, value)] _ => do
    let name ← key.mapError .text
    let result ← variant known name
    unit source value
    return result
  | _, .object _ _ _ => .error (.shape (.invalidValue .map "map with a single key"))
  | _, draft => refuse "string or map" draft

end Decoder

/-! ## Running a decoder -/

/-- read a text; nothing may follow the value -/
def read {α : Type} (decoder : Decoder α) (text : String) : Outcome α := do
  let (draft, trailing) := Draft.ofText text
  let value ← decoder .streamed draft
  stopAt trailing
  return value

/-- read a value in memory -/
def decode {α : Type} (decoder : Decoder α) (value : Json) : Outcome α :=
  decoder .inMemory (Draft.ofJson value.sorted)

end ApiSurface.Json
