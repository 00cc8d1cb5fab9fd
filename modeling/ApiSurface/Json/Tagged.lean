/-
Sums in documents. A tagged value is an object one of whose members names the variant, the other members being the
variant's own; or an array whose first item names it. A labelled value is an object with a member for the variant's name
and another one for its content, in either order; or an array of the two.
-/
import ApiSurface.Json.Record

namespace ApiSurface.Json

/-! ## A tag among the members -/

/-- the variant that a tag names; in a value read before, a number may stand for its position -/
def tagName {α : Type} (known : List (String × α)) (source : Source) (draft : Draft) : Outcome α :=
  match source, draft with
  | _, .string name => Decoder.variant known name
  | .buffered, .number (.int n) =>
    match if 0 ≤ n then known[n.toNat]? else none with
    | some (_, value) => .ok value
    | none =>
      if 0 ≤ n then
        .error (.shape (.invalidValue (.number (.int n))
          ("variant index 0 <= i < " ++ known.length.repr)))
      else refuse "variant identifier" draft
  | _, draft => refuse "variant identifier" draft

/-- take the tag out of an object's members, all of which are read on the way -/
def splitTag {α : Type} (tag : String) (known : List (String × α)) (source : Source) (ending : Option TextFault) :
    Option α → Draft.Entries → Outcome (α × Draft.Entries)
  | found, [] => do
    stopAt ending
    match found with
    | some value => return (value, [])
    | none => throw (.shape (.missingField tag))
  | found, (key, value) :: rest => do
    let name ← key.mapError .text
    if name = tag then
      if found.isSome then throw (.shape (.duplicateField tag))
      let variant ← tagName known source value
      splitTag tag known source ending (some variant) rest
    else
      value.buffer
      let (variant, others) ← splitTag tag known source ending found rest
      return (variant, (key, value) :: others)

/-- the variant of a tagged value, and the draft of its content -/
def tagged {α : Type} (tag : String) (known : List (String × α)) (name : String) (source : Source) (draft : Draft) :
    Outcome (α × Draft) :=
  match draft with
  | .object deep members ending => do
    enter deep
    let (variant, others) ← splitTag tag known source ending none members
    return (variant, .object false others none)
  | .array deep items ending => do
    enter deep
    match items with
    | [] =>
      stopAt ending
      throw (.shape (.missingField tag))
    | first :: rest =>
      let variant ← tagName known source first
      (Draft.array false rest ending).buffer
      return (variant, .array false rest none)
  | draft => refuse name draft

/-! ## A label beside the content -/

/-- the members under two keys, in order and up to where the text stops a reader that passes over all others: for each
whether it is under the first key, and its value -/
def relevant (first second : String) (ending : Option TextFault) :
    Draft.Entries → List (Bool × Draft) × Option TextFault
  | [] => ([], ending)
  | (.error fault, _) :: _ => ([], some fault)
  | (.ok key, value) :: rest =>
    let (others, stop) := relevant first second ending rest
    if key = first then ((true, value) :: others, stop)
    else if key = second then ((false, value) :: others, stop)
    else match value.skipFault? with
      | some fault => ([], some fault)
      | none => (others, stop)

/-- neither the label nor the content may come again -/
def onceOnly (label content : String) (stop : Option TextFault) : List (Bool × Draft) → Outcome Unit
  | [] => stopAt stop
  | (isLabel, _) :: _ => .error (.shape (.duplicateField (if isLabel then label else content)))

/-- a labelled value: `decode` reads the content of a variant, `bare` is the value of a variant without content -/
def labelled {α β : Type} (label content : String) (known : List (String × α)) (name : String)
    (decode : α → Decoder β) (bare : α → Option β) : Decoder β := fun source draft =>
  match draft with
  | .object deep members ending => do
    enter deep
    match relevant label content ending members with
    | ([], stop) =>
      stopAt stop
      throw (.shape (.missingField label))
    | ((true, tag) :: rest, stop) =>
      let variant ← Decoder.oneOf known source tag
      match rest with
      | [] =>
        stopAt stop
        match bare variant with
        | some value => return value
        | none => throw (.shape (.missingField content))
      | (true, _) :: _ => throw (.shape (.duplicateField label))
      | (false, value) :: rest =>
        let result ← decode variant source value
        onceOnly label content stop rest
        return result
    | ((false, value) :: rest, stop) =>
      value.buffer
      match rest with
      | [] =>
        stopAt stop
        throw (.shape (.missingField label))
      | (false, _) :: _ => throw (.shape (.duplicateField content))
      | (true, tag) :: rest =>
        let variant ← Decoder.oneOf known source tag
        let result ← decode variant .buffered value
        onceOnly label content stop rest
        return result
  | .array deep items ending => do
    enter deep
    match items with
    | [] =>
      stopAt ending
      throw (.shape (.invalidLength 0 name))
    | [tag] =>
      let _ ← Decoder.oneOf known source tag
      stopAt ending
      throw (.shape (.invalidLength 1 name))
    | tag :: value :: _ =>
      let variant ← Decoder.oneOf known source tag
      let result ← decode variant source value
      Fields.leftover source 2 items ending
      return result
  | draft => refuse name draft

end ApiSurface.Json
