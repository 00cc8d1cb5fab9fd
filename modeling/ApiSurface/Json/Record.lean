/-
Records in documents. `Fields α` says how the fields of a record are read, in declaration order; the same description
reads an object, by keys, and an array, by position. Of several problems the one that comes first in the document is
reported, and a missing field comes after everything that is there.
-/
import ApiSurface.Json.Decoder

namespace ApiSurface.Json

/-! ## Problems at places -/

/-- a value, or a problem and the place among the members or items where reading meets it -/
abbrev Placed (α : Type) := Except (Nat × Problem) α

/-- both values, or the earlier problem; of two at one place the first named -/
def Placed.both {α β : Type} (f : Placed (α → β)) (x : Placed α) : Placed β :=
  match f, x with
  | .ok f, .ok x => .ok (f x)
  | .error p, .ok _ => .error p
  | .ok _, .error q => .error q
  | .error p, .error q => .error (if q.1 < p.1 then q else p)

/-- put a problem at a place -/
def Placed.at {α : Type} (place : Nat) (outcome : Outcome α) : Placed α :=
  outcome.mapError fun problem => (place, problem)

/-- forget the place -/
def Placed.outcome {α : Type} (x : Placed α) : Outcome α := x.mapError Prod.snd

/-! ## Fields -/

/-- the items of an array, with what is needed to say that there are too few -/
structure Row where
  items : List Draft
  ending : Option TextFault
  /-- the record and its number of elements, as a message names them -/
  expected : String

/-- how the fields of a record are read -/
structure Fields (α : Type) where
  /-- the keys of the fields, in declaration order -/
  keys : List String
  /-- reading by keys -/
  ofMembers : Source → Draft.Entries → Placed α
  /-- reading by position, from the given one on -/
  ofItems : Source → Row → Nat → Placed α

namespace Fields

/-- the first value under a key, and its place -/
def first? (key : String) (members : Draft.Entries) : Option (Draft × Nat) :=
  members.zipIdx.findSome? fun (m, place) =>
    match m with
    | (.ok k, value) => if k = key then some (value, place) else none
    | (.error _, _) => none

/-- a field with its key; the alternative stands in for a field that is left out -/
def field {α : Type} (key : String) (decoder : Decoder α) (alternative : Option α) : Fields α where
  keys := [key]
  ofMembers source members :=
    match first? key members with
    | some (value, place) => Placed.at place (decoder source value)
    | none =>
      match alternative with
      | some value => .ok value
      | none => .error (members.length + 1, .shape (.missingField key))
  ofItems source row place :=
    match row.items[place]? with
    | some value => Placed.at place (decoder source value)
    | none =>
      match row.ending, alternative with
      | some fault, _ => .error (place, .text fault)
      | none, some value => .ok value
      | none, none => .error (place, .shape (.invalidLength place row.expected))

/-- a field that must be there -/
def required {α : Type} (key : String) (decoder : Decoder α) : Fields α := field key decoder none

/-- a field with a default -/
def orElse {α : Type} (key : String) (decoder : Decoder α) (alternative : α) : Fields α :=
  field key decoder (some alternative)

/-- a flag, off by default -/
def flag (key : String) : Fields Bool := orElse key Decoder.bool false

/-- a value that may be absent or `null` -/
def optional {α : Type} (key : String) (decoder : Decoder α) : Fields (Option α) :=
  orElse key (Decoder.optional decoder) none

/-- a list, empty by default -/
def list {α : Type} (key : String) (decoder : Decoder α) : Fields (List α) :=
  orElse key (Decoder.list decoder) []

def record {α : Type} (value : α) : Fields α where
  keys := []
  ofMembers _ _ := .ok value
  ofItems _ _ _ := .ok value

def and {α β : Type} (f : Fields (α → β)) (x : Fields α) : Fields β where
  keys := f.keys ++ x.keys
  ofMembers source members := Placed.both (f.ofMembers source members) (x.ofMembers source members)
  ofItems source row place :=
    Placed.both (f.ofItems source row place) (x.ofItems source row (place + f.keys.length))

/-! ## Reading an object -/

/-- the first problem that is not a field's own: an unreadable key, a key that comes again, an unknown member that
cannot be passed over, or the fault that leaves the object open -/
def obstacle (known : List String) (pass : Draft → Option TextFault) (ending : Option TextFault) :
    List String → Nat → Draft.Entries → Placed Unit
  | _, place, [] =>
    match ending with
    | some fault => .error (place, .text fault)
    | none => .ok ()
  | _, place, (.error fault, _) :: _ => .error (place, .text fault)
  | seen, place, (.ok key, value) :: rest =>
    if known.contains key then
      if seen.contains key then .error (place, .shape (.duplicateField key))
      else obstacle known pass ending (key :: seen) (place + 1) rest
    else
      match pass value with
      | some fault => .error (place, .text fault)
      | none => obstacle known pass ending seen (place + 1) rest

/-- read the fields from members; `pass` says what stops at a member that is no field -/
def readMembers {α : Type} (fields : Fields α) (pass : Draft → Option TextFault) (source : Source)
    (members : Draft.Entries) (ending : Option TextFault) : Outcome α :=
  (Placed.both (obstacle fields.keys pass ending [] 0 members |>.map fun _ => id)
    (fields.ofMembers source members)).outcome

/-! ## Reading an array -/

/-- a number of elements in words -/
def elements (n : Nat) : String := n.repr ++ (if n = 1 then " element" else " elements")

/-- nothing may follow the last field of an array -/
def leftover (source : Source) (count : Nat) (items : List Draft) (ending : Option TextFault) : Outcome Unit :=
  match source with
  | .streamed =>
    if count < items.length then throw (.text .trailingCharacters)
    else match ending with
      | none => return ()
      | some .trailingComma => throw (.text .trailingComma)
      | some .endInList => throw (.text .endInList)
      | some _ => throw (.text .trailingCharacters)
  | .buffered =>
    if count < items.length then
      throw (.shape (.invalidLength items.length (elements count ++ " in sequence")))
    else return ()
  | .inMemory =>
    if count < items.length then throw (.shape (.invalidLength items.length "fewer elements in array"))
    else return ()

/-- read the fields from the items of an array -/
def readItems {α : Type} (fields : Fields α) (name : String) (source : Source) (items : List Draft)
    (ending : Option TextFault) : Outcome α := do
  let count := fields.keys.length
  let row : Row := ⟨items, ending, name ++ " with " ++ elements count⟩
  let value ← (fields.ofItems source row 0).outcome
  leftover source count items ending
  return value

def decoder {α : Type} (fields : Fields α) (name : String) : Decoder α := fun source draft =>
  match draft with
  | .object deep members ending => do
    enter deep
    fields.readMembers Draft.skipFault? source members ending
  | .array deep items ending => do
    enter deep
    fields.readItems name source items ending
  | draft => refuse name draft

end Fields

/-- read a record whose members are shared between an outer record, whose fields are read in place, and an inner one,
read afterwards from all other members -/
def Fields.flattened {α β γ : Type} (outer : Fields α) (inner : Fields β) (join : β → α → γ) (name : String) :
    Decoder γ := fun source draft =>
  match draft with
  | .object deep members ending => do
    enter deep
    let o ← outer.readMembers Draft.fault? source members ending
    let others := members.filter fun m =>
      match m.1 with
      | .ok key => !outer.keys.contains key
      | .error _ => false
    let i ← inner.readMembers Draft.skipFault? .buffered others none
    return join i o
  | draft => refuse name draft

end ApiSurface.Json
