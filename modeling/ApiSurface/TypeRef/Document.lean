/-
References in documents: an object whose member `kind` names the form of the reference, beside the members of that form.
-/
import ApiSurface.TypeRef.Basic
import ApiSurface.Json.Tagged

namespace ApiSurface.TypeRef

open Json

inductive Form where
  | named
  | parameter
  | array
  | byRef
  | pointer
deriving DecidableEq, Repr

def Form.names : List (String × Form) :=
  [("named", .named), ("generic_parameter", .parameter), ("array", .array), ("by_ref", .byRef), ("pointer", .pointer)]

/-! ## Writing -/

/-- the arguments, left out when there are none -/
def argumentsMember : List Json → Members
  | [] => []
  | values => member "generic_arguments" (.array values)

mutual

/-- the value for a reference; absent parts and empty lists are left out -/
def toJson : TypeRef → Json
  | .named ns name none own =>
    .object (member "kind" (.string "named") ++ Json.optional "namespace" .string ns ++
      member "name" (.string name) ++ argumentsMember (toJsons own))
  | .named ns name (some declaring) own =>
    .object (member "kind" (.string "named") ++ Json.optional "namespace" .string ns ++
      member "name" (.string name) ++ member "declaring_type" (toJson declaring) ++ argumentsMember (toJsons own))
  | .parameter name position ofMethod =>
    .object (member "kind" (.string "generic_parameter") ++ member "name" (.string name) ++
      member "position" (.nat position.toNat) ++ Json.flag "is_method" ofMethod)
  | .array element rank =>
    .object (member "kind" (.string "array") ++ member "element" (toJson element) ++
      member "rank" (.nat rank.toNat))
  | .byRef element => .object (member "kind" (.string "by_ref") ++ member "element" (toJson element))
  | .pointer element => .object (member "kind" (.string "pointer") ++ member "element" (toJson element))

def toJsons : List TypeRef → List Json
  | [] => []
  | r :: rest => toJson r :: toJsons rest

end

/-! ## Reading -/

/-- the fields of a form, given the reader for references inside it -/
def fields (inner : Decoder TypeRef) : Form → Fields TypeRef
  | .named => Fields.record TypeRef.named
    |>.and (Fields.optional "namespace" Decoder.string)
    |>.and (Fields.required "name" Decoder.string)
    |>.and (Fields.optional "declaring_type" inner)
    |>.and (Fields.list "generic_arguments" inner)
  | .parameter => Fields.record TypeRef.parameter
    |>.and (Fields.required "name" Decoder.string)
    |>.and (Fields.required "position" (Decoder.word64 "usize"))
    |>.and (Fields.flag "is_method")
  | .array => Fields.record TypeRef.array
    |>.and (Fields.required "element" inner)
    |>.and (Fields.orElse "rank" Decoder.word32 1)
  | .byRef => Fields.record TypeRef.byRef |>.and (Fields.required "element" inner)
  | .pointer => Fields.record TypeRef.pointer |>.and (Fields.required "element" inner)

/-- a form as messages name it -/
def Form.title : Form → String
  | .named => "struct variant TypeRef::Named"
  | .parameter => "struct variant TypeRef::GenericParameter"
  | .array => "struct variant TypeRef::Array"
  | .byRef => "struct variant TypeRef::ByRef"
  | .pointer => "struct variant TypeRef::Pointer"

/-- read a reference whose draft nests fewer than `height` containers -/
def readWithin (height : Nat) : Decoder TypeRef := fun source draft =>
  match height with
  | 0 => .error (.text .tooDeep)
  | height + 1 => do
    let (form, content) ← tagged "kind" Form.names "internally tagged enum TypeRef" source draft
    (fields (readWithin height) form).decoder form.title .buffered content

def decoder : Decoder TypeRef := fun source draft => readWithin (draft.height + 1) source draft

end ApiSurface.TypeRef
