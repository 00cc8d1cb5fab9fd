/-
Parameters of methods and constructors.
-/
import ApiSurface.Descriptor.Vocabulary
import ApiSurface.Json.Record

namespace ApiSurface

open Json

structure ParameterDescriptor where
  name : String
  /-- the canonical name of the type, without a managed reference -/
  type : String
  direction : Direction
  default : Option String
  /-- takes any number of arguments -/
  isParams : Bool
deriving DecidableEq, Repr

namespace ParameterDescriptor

/-- a parameter passed by value, without a default -/
def plain (name type : String) : ParameterDescriptor := ⟨name, type, .input, none, false⟩

/-- the parameter passed in some way -/
def passed (p : ParameterDescriptor) (d : Direction) : ParameterDescriptor := { p with direction := d }

/-- the parameter with the text of a default value -/
def withDefault (p : ParameterDescriptor) (value : String) : ParameterDescriptor := { p with default := some value }

/-- the parameter taking any number of arguments -/
def takingAny (p : ParameterDescriptor) : ParameterDescriptor := { p with isParams := true }

def id (p : ParameterDescriptor) : String :=
  p.direction.keyword ++ (if p.isParams then "params " else "") ++ p.type ++ " " ++ p.name ++
    (match p.default with
      | some value => " = " ++ value
      | none => "")

def toJson (p : ParameterDescriptor) : Json :=
  .object (member "Name" (.string p.name) ++ member "Type" (.string p.type) ++
    (if p.direction = .input then [] else member "Direction" p.direction.toJson) ++
    Json.optional "DefaultValue" .string p.default ++ Json.flag "IsParams" p.isParams)

def fields : Fields ParameterDescriptor :=
  Fields.record ParameterDescriptor.mk
    |>.and (Fields.required "Name" Decoder.string)
    |>.and (Fields.required "Type" Decoder.string)
    |>.and (Fields.orElse "Direction" Direction.decoder .input)
    |>.and (Fields.optional "DefaultValue" Decoder.string)
    |>.and (Fields.flag "IsParams")

def decoder : Decoder ParameterDescriptor := fields.decoder "struct ParameterDescriptor"

end ParameterDescriptor

end ApiSurface
