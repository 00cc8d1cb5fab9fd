/-
The same listing in another order: its types may stand in any order, and so may the members of each type.

`members_perm`, `name_eq`, `id_eq`: what a type and its reordering have in common.
-/
import ApiSurface.Listing.Basic
import ApiSurface.Proofs.AnyOrder

namespace ApiSurface

/-- the type with its members in another order -/
def TypeDescriptor.Reordered (t u : TypeDescriptor) : Prop :=
  ∃ members, t.members.Perm members ∧ u = { t with members := members }

/-- the listing with its types, and the members of each, in another order -/
structure Listing.Reordered (l k : Listing) : Prop where
  identity : k.identity = l.identity
  types : AnyOrder TypeDescriptor.Reordered l.types k.types

namespace TypeDescriptor.Reordered

variable {t u : TypeDescriptor}

theorem members_perm (h : Reordered t u) : t.members.Perm u.members := by
  obtain ⟨members, hperm, rfl⟩ := h
  exact hperm

theorem name_eq (h : Reordered t u) : u.name = t.name := by
  obtain ⟨members, -, rfl⟩ := h
  rfl

/-- the Id shows no members -/
theorem id_eq (h : Reordered t u) : u.id = t.id := by
  obtain ⟨members, -, rfl⟩ := h
  rfl

end TypeDescriptor.Reordered

end ApiSurface
