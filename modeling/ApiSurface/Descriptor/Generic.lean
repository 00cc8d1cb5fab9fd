/-
Generic parameters of types, known by name, and constrained generic parameters of methods, known by position. Both are
shown as a where-clause, and only when something bounds them.
-/
import ApiSurface.Json.Record
import ApiSurface.TypeRef.Name

namespace ApiSurface

open Json

/-! ## Bounds -/

/-- what an argument for a generic parameter has to be -/
structure Bounds where
  new : Bool
  reference : Bool
  value : Bool
  /-- its base type, if bounded, and the interfaces it implements -/
  bases : List String
deriving DecidableEq, Repr

namespace Bounds

def unbounded : Bounds := ⟨false, false, false, []⟩

def any (b : Bounds) : Bool := b.new || b.reference || b.value || !b.bases.isEmpty

/-- the bounds in the order of a where-clause -/
def parts (b : Bounds) : List String :=
  (if b.reference then ["class"] else []) ++ (if b.value then ["struct"] else []) ++ b.bases ++
    (if b.new then ["new()"] else [])

/-- the where-clause for a label; empty without bounds -/
def clause (b : Bounds) (label : String) : String :=
  if b.parts.isEmpty then "" else "where " ++ label ++ " : " ++ String.intercalate ", " b.parts

def members (b : Bounds) : Members :=
  Json.flag "New" b.new ++ Json.flag "Class" b.reference ++ Json.flag "Struct" b.value ++
    Json.list "BaseTypeOrInterfaces" .string b.bases

end Bounds

/-! ## Parameters of types -/

structure GenericParameter where
  name : String
  bounds : Bounds
deriving DecidableEq, Repr

namespace GenericParameter

def unconstrained (name : String) : GenericParameter := ⟨name, .unbounded⟩

def id (g : GenericParameter) : String := g.bounds.clause g.name

def toJson (g : GenericParameter) : Json := .object (member "ParameterName" (.string g.name) ++ g.bounds.members)

def fields : Fields GenericParameter :=
  Fields.record (fun name new reference value bases => ⟨name, ⟨new, reference, value, bases⟩⟩)
    |>.and (Fields.required "ParameterName" Decoder.string)
    |>.and (Fields.flag "New")
    |>.and (Fields.flag "Class")
    |>.and (Fields.flag "Struct")
    |>.and (Fields.list "BaseTypeOrInterfaces" Decoder.string)

def decoder : Decoder GenericParameter := fields.decoder "struct GenericParameterDescriptor"

end GenericParameter

/-! ## Parameters of methods -/

/-- the bounds of a method's generic parameter -/
structure GenericConstraint where
  position : UInt64
  bounds : Bounds
deriving DecidableEq, Repr

namespace GenericConstraint

/-- no bounds on the parameter at a position -/
def unconstrained (position : UInt64) : GenericConstraint := ⟨position, .unbounded⟩

/-- the label that stands for the parameter -/
def label (c : GenericConstraint) : String := TypeRef.constraintLabel c.position

def id (c : GenericConstraint) : String := c.bounds.clause c.label

/-- the value in a document; position zero is left out -/
def toJson (c : GenericConstraint) : Json :=
  .object ((if c.position = 0 then [] else member "ParameterPosition" (.nat c.position.toNat)) ++ c.bounds.members)

def fields : Fields GenericConstraint :=
  Fields.record (fun position new reference value bases => ⟨position, ⟨new, reference, value, bases⟩⟩)
    |>.and (Fields.orElse "ParameterPosition" (Decoder.word64 "usize") 0)
    |>.and (Fields.flag "New")
    |>.and (Fields.flag "Class")
    |>.and (Fields.flag "Struct")
    |>.and (Fields.list "BaseTypeOrInterfaces" Decoder.string)

def decoder : Decoder GenericConstraint := fields.decoder "struct GenericConstraintDescriptor"

end GenericConstraint

end ApiSurface
