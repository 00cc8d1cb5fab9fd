/-
Filters inside a comparison, and listings that were pruned before it.

A pruned listing has only the types that a filter keeps, as they stood, and of these only the members that it keeps. A type
keeps its name and its Id, which show no members, so partners are found as before, even among types of one name.

`compareType_pruned`: pruning both of a pair first gives the violations that the filter gives.
`compare_pruned`: so it is for whole reports.
-/
import ApiSurface.Proofs.Comparison.Exactness

namespace ApiSurface

variable (keep : DescriptorFilter)

/-- the type without the members that a filter leaves out -/
def TypeDescriptor.pruned (t : TypeDescriptor) : TypeDescriptor := { t with members := keep.members t }

/-- the listing without the types that a filter leaves out, and of the others without the members -/
def Listing.pruned (l : Listing) : Listing := { l with types := (keep.types l).map (TypeDescriptor.pruned keep) }

namespace TypeDescriptor

@[simp] theorem name_pruned (t : TypeDescriptor) : (t.pruned keep).name = t.name := rfl

@[simp] theorem id_pruned (t : TypeDescriptor) : (t.pruned keep).id = t.id := rfl

end TypeDescriptor

namespace Comparison

/-! ## Without a filter -/

@[simp] theorem members_keepAll (t : TypeDescriptor) : DescriptorFilter.keepAll.members t = t.members :=
  List.filter_eq_self.2 fun _ _ => rfl

@[simp] theorem types_keepAll (l : Listing) : DescriptorFilter.keepAll.types l = l.types :=
  List.filter_eq_self.2 fun _ _ => rfl

/-! ## Pairs -/

/-- the partner of a name is the same type, pruned or not -/
theorem named?_pruned (types : List TypeDescriptor) (name : String) :
    named? (types.map (TypeDescriptor.pruned keep)) name = (named? types name).map (TypeDescriptor.pruned keep) := by
  rw [named?_eq, named?_eq, List.filter_map, List.getLast?_map]
  rfl

/-- violations show the name and the Id of a type, and those are the same -/
theorem compareMember_pruned (t : TypeDescriptor) (m : MemberDescriptor) (rivals : List MemberDescriptor) :
    compareMember (t.pruned keep) m rivals = compareMember t m rivals := by
  cases rivals <;> rfl

/-- **One pair.** Pruned, a type and its partner differ as the filter has them differ. -/
theorem compareType_pruned (t : TypeDescriptor) (partner : Option TypeDescriptor) :
    compareType .keepAll (t.pruned keep) (partner.map (TypeDescriptor.pruned keep)) = compareType keep t partner := by
  cases partner with
  | none => rfl
  | some c =>
    have hmembers : ∀ u : TypeDescriptor, DescriptorFilter.keepAll.members (u.pruned keep) = keep.members u := fun u =>
      members_keepAll (u.pruned keep)
    rw [Option.map_some, compareType, compareType, hmembers, hmembers]
    simp only [compareMember_pruned, TypeDescriptor.id_pruned]
    rfl

/-! ## Listings -/

theorem violations_pruned (baseline candidate : Listing) :
    violations (baseline.pruned keep) (candidate.pruned keep) .keepAll = violations baseline candidate keep := by
  unfold violations
  rw [types_keepAll, types_keepAll, Listing.pruned, Listing.pruned, List.flatMap_map]
  apply List.flatMap_congr
  intro t _
  rw [TypeDescriptor.name_pruned, named?_pruned, compareType_pruned]

/-- **Filtering is pruning first.** Under a filter the report on two listings, whatever they repeat, is that on the pruned
listings without a filter. -/
theorem compare_pruned (baseline candidate : Listing) (exclusions : ExclusionSet) (keep : DescriptorFilter) :
    baseline.compare candidate exclusions keep =
      (baseline.pruned keep).compare (candidate.pruned keep) exclusions .keepAll := by
  simp only [Listing.compare, violations_pruned]

end Comparison

end ApiSurface
