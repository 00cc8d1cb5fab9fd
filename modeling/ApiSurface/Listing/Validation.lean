/-
The rules that a listing obeys beyond its shape: types have distinct names, members of a type distinct Ids, no name is
empty, interfaces are not sealed, and only classes are static. The first breach in the order of the listing is reported.
-/
import ApiSurface.Listing.Basic

namespace ApiSurface

inductive SchemaFault where
  | document (problem : Json.Problem)
  | emptyTypeName (index : Nat)
  | duplicateType (name : String)
  | sealedInterface (name : String)
  | staticNonClass (name : String)
  | emptyMemberName (typeName : String) (index : Nat)
  | duplicateMember (typeName memberId : String)
deriving DecidableEq, Repr

def SchemaFault.message : SchemaFault → String
  | .document problem => "JSON parse error: " ++ problem.message
  | .emptyTypeName index => "type at index " ++ index.repr ++ " has an empty name"
  | .duplicateType name => "duplicate type name `" ++ name ++ "`"
  | .sealedInterface name => "interface `" ++ name ++ "` cannot be sealed"
  | .staticNonClass name => "`" ++ name ++ "` is static but is not a class"
  | .emptyMemberName typeName index =>
    "member at index " ++ index.repr ++ " of `" ++ typeName ++ "` has an empty name"
  | .duplicateMember typeName memberId => "duplicate member `" ++ memberId ++ "` in `" ++ typeName ++ "`"

namespace Listing

/-! ## Checking -/

/-- check the members of a type from an index on, given the Ids before -/
def validateMembers (typeName : String) : List String → Nat → List MemberDescriptor → Except SchemaFault Unit
  | _, _, [] => .ok ()
  | seen, index, m :: rest =>
    if m.name.isEmpty then .error (.emptyMemberName typeName index)
    else if seen.contains m.id then .error (.duplicateMember typeName m.id)
    else validateMembers typeName (m.id :: seen) (index + 1) rest

/-- check a type by itself -/
def validateType (t : TypeDescriptor) : Except SchemaFault Unit :=
  if t.kind = .interfaceType ∧ t.isSealed then .error (.sealedInterface t.name)
  else if t.isStatic ∧ t.kind ≠ .classType then .error (.staticNonClass t.name)
  else validateMembers t.name [] 0 t.members

/-- check types from an index on, given the names before -/
def validateTypes : List String → Nat → List TypeDescriptor → Except SchemaFault Unit
  | _, _, [] => .ok ()
  | seen, index, t :: rest =>
    if t.name.isEmpty then .error (.emptyTypeName index)
    else if seen.contains t.name then .error (.duplicateType t.name)
    else
      match validateType t with
      | .error fault => .error fault
      | .ok () => validateTypes (t.name :: seen) (index + 1) rest

def validate (l : Listing) : Except SchemaFault Unit := validateTypes [] 0 l.types

/-! ## Loading -/

/-- a listing that was read, or why it was not, without checking it -/
def ofOutcome (outcome : Json.Outcome Listing) : Except SchemaFault Listing := outcome.mapError .document

/-- a listing with its check -/
def checked (l : Listing) : Except SchemaFault Listing := l.validate.map fun _ => l

/-- read a listing without checking it -/
def ofText (text : String) : Except SchemaFault Listing := ofOutcome (Json.read decoder text)

/-- read a listing and check it -/
def load (text : String) : Except SchemaFault Listing := ofText text >>= checked

/-- take a listing from a value and check it -/
def ofJson (value : Json) : Except SchemaFault Listing := ofOutcome (Json.decode decoder value) >>= checked

end Listing

end ApiSurface
