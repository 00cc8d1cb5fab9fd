/-
Members of types: constructors, methods and fields. The Id of a member is its whole declaration; its signature is the
part that stays when modifiers, names of parameters and the like change, and pairs members across listings.
-/
import ApiSurface.Descriptor.Generic
import ApiSurface.Descriptor.Parameter

namespace ApiSurface

open Json

structure MemberDescriptor where
  kind : MemberKind
  /-- a generic method's name has its parameters in angle brackets -/
  name : String
  parameters : List ParameterDescriptor
  /-- of a method, or the type of a field -/
  returnType : Option String
  isSealed : Bool
  isStatic : Bool
  isVirtual : Bool
  isOverride : Bool
  isAbstract : Bool
  /-- hides an inherited member -/
  isNew : Bool
  isExtension : Bool
  isReadOnly : Bool
  /-- the interface that an explicit implementation names -/
  explicitInterface : Option String
  /-- the interface that the member implements without naming it -/
  implementedInterface : Option String
  /-- an explicit implementation has none -/
  visibility : Option Visibility
  constraints : List GenericConstraint
  isConstant : Bool
  /-- the text of a constant's value -/
  literal : Option String
deriving DecidableEq, Repr

/-- what pairs members across listings -/
structure MemberSignature where
  kind : MemberKind
  name : String
  parameters : List (Direction × String)
deriving DecidableEq, Repr

namespace MemberSignature

/-- the signature as messages show it -/
def display (s : MemberSignature) : String :=
  s.kind.keyword ++ " " ++ s.name ++ "(" ++
    String.intercalate ", " (s.parameters.map fun p => p.1.keyword ++ p.2) ++ ")"

end MemberSignature

namespace MemberDescriptor

/-! ## Building -/

/-- a member without modifiers -/
def plain (kind : MemberKind) (name : String) : MemberDescriptor where
  kind := kind
  name := name
  parameters := []
  returnType := none
  isSealed := false
  isStatic := false
  isVirtual := false
  isOverride := false
  isAbstract := false
  isNew := false
  isExtension := false
  isReadOnly := false
  explicitInterface := none
  implementedInterface := none
  visibility := none
  constraints := []
  isConstant := false
  literal := none

def method (name returnType : String) : MemberDescriptor :=
  { plain .method name with returnType := some returnType, visibility := some .pub }

def constructor : MemberDescriptor := { plain .constructor ".ctor" with visibility := some .pub }

def field (name type : String) : MemberDescriptor :=
  { plain .field name with returnType := some type, visibility := some .pub }

/-- the member as an explicit implementation -/
def explicit (m : MemberDescriptor) (interface : String) : MemberDescriptor :=
  { m with explicitInterface := some interface, visibility := none }

def withVisibility (m : MemberDescriptor) (v : Visibility) : MemberDescriptor := { m with visibility := some v }

def withParameter (m : MemberDescriptor) (p : ParameterDescriptor) : MemberDescriptor :=
  { m with parameters := m.parameters ++ [p] }

def withConstraint (m : MemberDescriptor) (c : GenericConstraint) : MemberDescriptor :=
  { m with constraints := m.constraints ++ [c] }

/-! ## Signature and Id -/

/-- the name, after the interface of an explicit implementation -/
def qualifiedName (m : MemberDescriptor) : String :=
  match m.explicitInterface with
  | some interface => interface ++ "." ++ m.name
  | none => m.name

/-- what pairs the member across listings -/
def signature (m : MemberDescriptor) : MemberSignature :=
  ⟨m.kind, m.qualifiedName, m.parameters.map fun p => (p.direction, p.type)⟩

/-- the visibility that the declaration shows -/
def shownVisibility (m : MemberDescriptor) : Option Visibility :=
  if m.explicitInterface.isSome then none else m.visibility

/-- the modifiers that the declaration shows, in order -/
def modifiers (m : MemberDescriptor) : List String :=
  [(m.isStatic, "static"), (m.isAbstract, "abstract"), (m.isVirtual, "virtual"), (m.isOverride, "override"),
    (m.isSealed, "sealed"), (m.isNew, "new"), (m.isConstant, "const"),
    (m.isReadOnly && !m.isConstant, "readonly")].filterMap fun (set, keyword) =>
      if set then some keyword else none

/-- the parameters of a declaration; the first one of an extension method is marked -/
def parameterList (m : MemberDescriptor) : String :=
  match m.parameters with
  | [] => ""
  | first :: rest =>
    String.intercalate ", "
      (((if m.isExtension then "this " else "") ++ first.id) :: rest.map ParameterDescriptor.id)

/-- a field's name and value, or the name, parameters and where-clauses of any other member -/
def body (m : MemberDescriptor) : List String :=
  match m.kind with
  | .field =>
    [m.name ++ (match m.literal with
      | some value => " = " ++ value
      | none => "")]
  | .constructor | .method =>
    (m.qualifiedName ++ "(" ++ m.parameterList ++ ")") ::
      (m.constraints.filter fun c => c.bounds.any).map GenericConstraint.id

/-- the words of the declaration -/
def words (m : MemberDescriptor) : List String :=
  (m.shownVisibility.map Visibility.keyword).toList ++ m.modifiers ++ m.returnType.toList ++ m.body

def id (m : MemberDescriptor) : String := String.intercalate " " m.words

/-! ## Documents -/

def toJson (m : MemberDescriptor) : Json :=
  .object (member "Kind" m.kind.toJson ++ member "Name" (.string m.name) ++
    Json.list "Parameters" ParameterDescriptor.toJson m.parameters ++
    Json.optional "ReturnType" .string m.returnType ++
    Json.flag "Sealed" m.isSealed ++ Json.flag "Static" m.isStatic ++ Json.flag "Virtual" m.isVirtual ++
    Json.flag "Override" m.isOverride ++ Json.flag "Abstract" m.isAbstract ++ Json.flag "New" m.isNew ++
    Json.flag "Extension" m.isExtension ++ Json.flag "ReadOnly" m.isReadOnly ++
    Json.optional "ExplicitInterface" .string m.explicitInterface ++
    Json.optional "ImplementedInterface" .string m.implementedInterface ++
    Json.optional "Visibility" Visibility.toJson m.visibility ++
    Json.list "GenericConstraints" GenericConstraint.toJson m.constraints ++
    Json.flag "Constant" m.isConstant ++ Json.optional "Literal" .string m.literal)

def fields : Fields MemberDescriptor :=
  Fields.record MemberDescriptor.mk
    |>.and (Fields.required "Kind" MemberKind.decoder)
    |>.and (Fields.required "Name" Decoder.string)
    |>.and (Fields.list "Parameters" ParameterDescriptor.decoder)
    |>.and (Fields.optional "ReturnType" Decoder.string)
    |>.and (Fields.flag "Sealed")
    |>.and (Fields.flag "Static")
    |>.and (Fields.flag "Virtual")
    |>.and (Fields.flag "Override")
    |>.and (Fields.flag "Abstract")
    |>.and (Fields.flag "New")
    |>.and (Fields.flag "Extension")
    |>.and (Fields.flag "ReadOnly")
    |>.and (Fields.optional "ExplicitInterface" Decoder.string)
    |>.and (Fields.optional "ImplementedInterface" Decoder.string)
    |>.and (Fields.optional "Visibility" Visibility.decoder)
    |>.and (Fields.list "GenericConstraints" GenericConstraint.decoder)
    |>.and (Fields.flag "Constant")
    |>.and (Fields.optional "Literal" Decoder.string)

def decoder : Decoder MemberDescriptor := fields.decoder "struct MemberDescriptor"

end MemberDescriptor

end ApiSurface
