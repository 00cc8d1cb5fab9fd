/-
Comparing a candidate listing with a baseline. Types are paired by name, members by signature; a pair with different Ids
is a change, a baseline entry without a partner is a removal, and additions are no matter. A filter leaves out types,
with all they contain, and members, on both sides. Approved violations are set apart, and approvals of nothing reported.
-/
import ApiSurface.Comparison.Exclusion
import ApiSurface.Descriptor.View
import ApiSurface.Listing.Basic

namespace ApiSurface

open Json

/-! ## Filters -/

/-- which types and members take part -/
abbrev DescriptorFilter := Descriptor → Bool

namespace DescriptorFilter

def keepAll : DescriptorFilter := fun _ => true

/-- a name lies in a namespace or one inside it -/
def inNamespace (ns name : String) : Bool := (ns.toList ++ ['.']).isPrefixOf name.toList

/-- types in any of some namespaces are left out -/
def excludeNamespaces (namespaces : List String) : DescriptorFilter
  | .type t => !namespaces.any fun ns => inNamespace ns t.name
  | _ => true

/-- the members of a type that take part -/
def members (keep : DescriptorFilter) (t : TypeDescriptor) : List MemberDescriptor :=
  t.members.filter fun m => keep (.member m)

/-- the types of a listing that take part -/
def types (keep : DescriptorFilter) (l : Listing) : List TypeDescriptor := l.types.filter fun t => keep (.type t)

end DescriptorFilter

/-! ## Reports -/

structure ComparisonReport where
  violations : List Violation
  /-- violations that were approved -/
  suppressed : List Violation
  /-- exclusions that no violation matched -/
  unused : List Exclusion
deriving DecidableEq, Repr

namespace ComparisonReport

/-- nothing is left to complain about -/
def passed (r : ComparisonReport) : Bool := r.violations.isEmpty

def count (r : ComparisonReport) (kind : ViolationKind) : Nat := r.violations.countP fun v => v.kind == kind

/-- violations fail a run, and so do unused exclusions if it is strict -/
def isFailure (r : ComparisonReport) (strict : Bool) : Bool := !r.passed || (strict && !r.unused.isEmpty)

/-- the exclusions that would approve every violation -/
def approvals (r : ComparisonReport) : ExclusionSet := ExclusionSet.ofList (r.violations.map Violation.key)

def members (r : ComparisonReport) : Members :=
  member "Violations" (.array (r.violations.map Violation.toJson)) ++
    Json.list "Suppressed" Violation.toJson r.suppressed ++ Json.list "UnusedExclusions" Exclusion.toJson r.unused

def toJson (r : ComparisonReport) : Json := .object r.members

def fields : Fields ComparisonReport :=
  Fields.record ComparisonReport.mk
    |>.and (Fields.list "Violations" Violation.decoder)
    |>.and (Fields.list "Suppressed" Violation.decoder)
    |>.and (Fields.list "UnusedExclusions" Exclusion.decoder)

def decoder : Decoder ComparisonReport := fields.decoder "struct ComparisonReport"

end ComparisonReport

/-! ## Comparing -/

namespace Comparison

/-- the last of some types with a name -/
def named? (types : List TypeDescriptor) (name : String) : Option TypeDescriptor :=
  (types.filter fun t => t.name == name).getLast?

def removedType (t : TypeDescriptor) : Violation :=
  ⟨t.id, none, .typeRemoved, "Type `" ++ t.name ++ "` was removed"⟩

/-- the type has another declaration -/
def changedType (t candidate : TypeDescriptor) : Violation :=
  ⟨t.id, none, .typeChanged, "Type `" ++ t.id ++ "` changed to `" ++ candidate.id ++ "`"⟩

def removedMember (t : TypeDescriptor) (m : MemberDescriptor) : Violation :=
  ⟨t.id, some m.id, .memberRemoved, "Member `" ++ m.id ++ "` was removed from `" ++ t.name ++ "`"⟩

/-- the member has another declaration -/
def changedMember (t : TypeDescriptor) (m candidate : MemberDescriptor) : Violation :=
  ⟨t.id, some m.id, .memberChanged, "Member `" ++ m.id ++ "` changed to `" ++ candidate.id ++ "`"⟩

/-- what becomes of a member, given the candidate's members of the same signature -/
def compareMember (t : TypeDescriptor) (m : MemberDescriptor) : List MemberDescriptor → List Violation
  | [] => [removedMember t m]
  | first :: rest => if (first :: rest).any fun c => c.id == m.id then [] else [changedMember t m first]

/-- what becomes of a type and its members, given the candidate of its name -/
def compareType (keep : DescriptorFilter) (t : TypeDescriptor) : Option TypeDescriptor → List Violation
  | none => [removedType t]
  | some candidate =>
    (if candidate.id = t.id then [] else [changedType t candidate]) ++
      (keep.members t).flatMap fun m =>
        compareMember t m ((keep.members candidate).filter fun c => decide (c.signature = m.signature))

/-- everything that the candidate breaks, in the order of the baseline -/
def violations (baseline candidate : Listing) (keep : DescriptorFilter) : List Violation :=
  (keep.types baseline).flatMap fun t => compareType keep t (named? (keep.types candidate) t.name)

end Comparison

def Listing.compare (baseline candidate : Listing) (exclusions : ExclusionSet) (keep : DescriptorFilter) :
    ComparisonReport :=
  let found := Comparison.violations baseline candidate keep
  { violations := Violation.sort (found.filter fun v => !exclusions.approves v)
    suppressed := Violation.sort (found.filter exclusions.approves)
    unused := exclusions.toList.filter fun e => !(found.any fun v => v.key == e) }

end ApiSurface
