/-
Violations: what a candidate listing breaks of a baseline. They are ordered by the Id of the type, then that of the
member, those of the type itself first, then by kind and description.
-/
import ApiSurface.Json.Record

namespace ApiSurface

open Json

/-! ## Kinds -/

inductive ViolationKind where
  | typeRemoved
  | typeChanged
  | memberRemoved
  | memberChanged
deriving DecidableEq, Repr

namespace ViolationKind

def all : List ViolationKind := [.typeRemoved, .typeChanged, .memberRemoved, .memberChanged]

/-- the place in the order -/
def rank : ViolationKind → Nat
  | .typeRemoved => 0
  | .typeChanged => 1
  | .memberRemoved => 2
  | .memberChanged => 3

/-- the code that reports show -/
def code : ViolationKind → String
  | .typeRemoved => "AC001"
  | .typeChanged => "AC002"
  | .memberRemoved => "AC003"
  | .memberChanged => "AC004"

def name : ViolationKind → String
  | .typeRemoved => "TypeRemoved"
  | .typeChanged => "TypeChanged"
  | .memberRemoved => "MemberRemoved"
  | .memberChanged => "MemberChanged"

/-- a change of the kind breaks users of the module; every one does -/
def isBreaking : ViolationKind → Bool
  | .typeRemoved => true
  | .typeChanged => true
  | .memberRemoved => true
  | .memberChanged => true

def toJson (k : ViolationKind) : Json := .string k.name

def decoder : Decoder ViolationKind := Decoder.oneOf (all.map fun k => (k.name, k))

end ViolationKind

/-! ## Violations -/

structure Violation where
  /-- the Id of the baseline's type -/
  typeId : String
  /-- the Id of the baseline's member, unless the type itself is meant -/
  memberId : Option String
  kind : ViolationKind
  description : String
deriving DecidableEq, Repr

namespace Violation

/-- the order of reports -/
def order : Violation → Violation → Ordering :=
  compareLex (compareOn typeId)
    (compareLex (compareOn memberId)
      (compareLex (compareOn fun v => v.kind.rank) (compareOn description)))

/-- sort into the order of reports -/
def sort (violations : List Violation) : List Violation := violations.mergeSort fun a b => (order a b).isLE

/-- the line that shows a violation -/
def line (v : Violation) : String := v.kind.code ++ " " ++ v.kind.name ++ ": " ++ v.description

def toJson (v : Violation) : Json :=
  .object (member "TypeId" (.string v.typeId) ++ Json.optional "MemberId" .string v.memberId ++
    member "Kind" v.kind.toJson ++ member "Description" (.string v.description))

def fields : Fields Violation :=
  Fields.record Violation.mk
    |>.and (Fields.required "TypeId" Decoder.string)
    |>.and (Fields.optional "MemberId" Decoder.string)
    |>.and (Fields.required "Kind" ViolationKind.decoder)
    |>.and (Fields.required "Description" Decoder.string)

def decoder : Decoder Violation := fields.decoder "struct Violation"

end Violation

end ApiSurface
