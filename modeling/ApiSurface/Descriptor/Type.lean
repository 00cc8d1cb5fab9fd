/-
Exported types. The Id of a type is its declaration without members.
-/
import ApiSurface.Descriptor.Member

namespace ApiSurface

open Json

structure TypeDescriptor where
  name : String
  visibility : Visibility
  kind : TypeKind
  isAbstract : Bool
  isStatic : Bool
  isSealed : Bool
  baseType : Option String
  /-- the interfaces implemented directly, in declaration order -/
  interfaces : List String
  genericParameters : List GenericParameter
  members : List MemberDescriptor
deriving DecidableEq, Repr

namespace TypeDescriptor

/-! ## Building -/

/-- a type without modifiers or contents -/
def plain (name : String) (visibility : Visibility) (kind : TypeKind) : TypeDescriptor where
  name := name
  visibility := visibility
  kind := kind
  isAbstract := false
  isStatic := false
  isSealed := false
  baseType := none
  interfaces := []
  genericParameters := []
  members := []

def ofClass (name : String) : TypeDescriptor := plain name .pub .classType

def ofInterface (name : String) : TypeDescriptor := plain name .pub .interfaceType

def extending (t : TypeDescriptor) (base : String) : TypeDescriptor := { t with baseType := some base }

def implementing (t : TypeDescriptor) (interface : String) : TypeDescriptor :=
  { t with interfaces := t.interfaces ++ [interface] }

def withGeneric (t : TypeDescriptor) (g : GenericParameter) : TypeDescriptor :=
  { t with genericParameters := t.genericParameters ++ [g] }

def withMember (t : TypeDescriptor) (m : MemberDescriptor) : TypeDescriptor := { t with members := t.members ++ [m] }

/-! ## Name and Id -/

/-- the place of the last dot before the last part of a top-level name, outside angle brackets -/
def lastDot? (depth place : Nat) (found : Option Nat) : List Char → Option Nat
  | [] => found
  | c :: rest =>
    if c = '<' then lastDot? (depth + 1) (place + 1) found rest
    else if c = '>' then lastDot? (depth - 1) (place + 1) found rest
    else if c = '+' ∧ depth = 0 then found
    else if c = '.' ∧ depth = 0 then lastDot? depth (place + 1) (some place) rest
    else lastDot? depth (place + 1) found rest

/-- the namespace that the name begins with -/
def namespace? (t : TypeDescriptor) : Option String :=
  (lastDot? 0 0 none t.name.toList).map fun place => String.ofList (t.name.toList.take place)

/-- the modifiers that the declaration shows: a static type is neither abstract nor sealed, an interface not abstract,
and only a class sealed -/
def modifiers (t : TypeDescriptor) : List String :=
  if t.isStatic then ["static"]
  else
    (if t.isAbstract ∧ t.kind ≠ .interfaceType then ["abstract"] else []) ++
      (if t.isSealed ∧ t.kind = .classType then ["sealed"] else [])

/-- the base type and the interfaces -/
def supertypes (t : TypeDescriptor) : List String := t.baseType.toList ++ t.interfaces

/-- the supertypes after a colon, or nothing for none -/
def inheritance (t : TypeDescriptor) : String :=
  if t.supertypes.isEmpty then "" else " : " ++ String.intercalate ", " t.supertypes

/-- the where-clauses of the bounded parameters -/
def clauses (t : TypeDescriptor) : List String :=
  (t.genericParameters.filter fun g => g.bounds.any).map GenericParameter.id

def id (t : TypeDescriptor) : String :=
  String.intercalate " "
    ([t.visibility.keyword] ++ t.modifiers ++ [t.kind.keyword, t.name ++ t.inheritance] ++ t.clauses)

def findMember? (t : TypeDescriptor) (id : String) : Option MemberDescriptor :=
  t.members.find? fun m => m.id == id

/-! ## Documents -/

def toJson (t : TypeDescriptor) : Json :=
  .object (member "Name" (.string t.name) ++ member "Visibility" t.visibility.toJson ++
    member "Kind" t.kind.toJson ++
    Json.flag "Abstract" t.isAbstract ++ Json.flag "Static" t.isStatic ++ Json.flag "Sealed" t.isSealed ++
    Json.optional "BaseType" .string t.baseType ++ Json.list "ImplementedInterfaces" .string t.interfaces ++
    Json.list "GenericParameters" GenericParameter.toJson t.genericParameters ++
    Json.list "Members" MemberDescriptor.toJson t.members)

def fields : Fields TypeDescriptor :=
  Fields.record TypeDescriptor.mk
    |>.and (Fields.required "Name" Decoder.string)
    |>.and (Fields.required "Visibility" Visibility.decoder)
    |>.and (Fields.required "Kind" TypeKind.decoder)
    |>.and (Fields.flag "Abstract")
    |>.and (Fields.flag "Static")
    |>.and (Fields.flag "Sealed")
    |>.and (Fields.optional "BaseType" Decoder.string)
    |>.and (Fields.list "ImplementedInterfaces" Decoder.string)
    |>.and (Fields.list "GenericParameters" GenericParameter.decoder)
    |>.and (Fields.list "Members" MemberDescriptor.decoder)

def decoder : Decoder TypeDescriptor := fields.decoder "struct TypeDescriptor"

end TypeDescriptor

end ApiSurface
