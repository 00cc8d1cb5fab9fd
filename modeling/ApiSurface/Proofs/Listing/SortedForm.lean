/-
The sorted form of a listing: what sorting changes, and what it does not.

`reordered_sort`: sorting reorders a listing, and does nothing else to it.
`Reordered.valid`: reorderings of a listing keep its rules.
`sort_canonical`: where Ids are distinct, all reorderings of a listing have one sorted form, and so one document.
-/
import ApiSurface.Proofs.Listing.Fingerprint
import ApiSurface.Proofs.Listing.Sorting
import ApiSurface.Proofs.Listing.Validity

namespace ApiSurface

/-! ## Reorderings -/

theorem TypeDescriptor.Reordered.symm {t u : TypeDescriptor} (h : Reordered t u) : Reordered u t := by
  obtain ⟨members, hperm, rfl⟩ := h
  exact ⟨t.members, hperm.symm, rfl⟩

namespace Listing

/-- the rules for a type do not see the order of its members -/
theorem ValidType.reordered {t u : TypeDescriptor} (ht : ValidType t) (h : t.Reordered u) : ValidType u := by
  obtain ⟨members, hperm, rfl⟩ := h
  refine ⟨ht.named, ht.interface_open, ht.static_class, fun m hm => ?_, ?_⟩
  · exact ht.members_named m (hperm.mem_iff.2 hm)
  · exact (hperm.map MemberDescriptor.id).nodup_iff.1 ht.members_distinct

namespace Reordered

variable {l k : Listing}

theorem symm (h : l.Reordered k) : k.Reordered l where
  identity := h.identity.symm
  types := h.types.symm.imp fun _ _ _ _ htu => htu.symm

/-- **The rules for a listing** do not see its order. -/
theorem valid (h : l.Reordered k) (hl : l.Valid) : k.Valid where
  distinct := (h.types.perm_map fun _ _ _ _ htu => htu.name_eq.symm).nodup_iff.1 hl.distinct
  types := by
    intro u hu
    obtain ⟨t, ht, htu⟩ := h.types.symm.exists_mem hu
    exact (hl.types t ht).reordered htu

/-- so the check passes all orders of a listing or none -/
theorem validate_eq_ok_iff (h : l.Reordered k) : k.validate = .ok () ↔ l.validate = .ok () := by
  rw [Listing.validate_eq_ok_iff, Listing.validate_eq_ok_iff]
  exact ⟨h.symm.valid, h.valid⟩

end Reordered

/-! ## Sorting -/

variable (l : Listing)

theorem types_sort : l.sort.types = sortTypes (l.types.map sortedType) := rfl

theorem reordered_sortedType (t : TypeDescriptor) : t.Reordered (sortedType t) :=
  ⟨sortMembers t.members, (List.mergeSort_perm _ _).symm, rfl⟩

/-- **Sorting only reorders**: types change places, and so do the members of each. -/
theorem reordered_sort : l.Reordered l.sort where
  identity := rfl
  types := by
    have hmembers : AnyOrder TypeDescriptor.Reordered l.types (l.types.map sortedType) := by
      refine ⟨l.types, List.Perm.refl _, ?_⟩
      rw [List.forall₂_map_right_iff, List.forall₂_same]
      exact fun t _ => reordered_sortedType t
    exact hmembers.perm_right (List.mergeSort_perm _ _).symm

/-- a type of the sorted listing is a type of the listing with its members sorted -/
theorem mem_types_sort {t : TypeDescriptor} : t ∈ l.sort.types ↔ ∃ u ∈ l.types, sortedType u = t := by
  rw [types_sort, sortTypes, (List.mergeSort_perm _ _).mem_iff, List.mem_map]

theorem pairwise_types_sort : l.sort.types.Pairwise fun t u => t.id ≤ u.id := pairwise_sorted TypeDescriptor.id _

theorem pairwise_members_sort {t : TypeDescriptor} (ht : t ∈ l.sort.types) :
    t.members.Pairwise fun m n => m.id ≤ n.id := by
  obtain ⟨u, -, rfl⟩ := (mem_types_sort l).1 ht
  exact pairwise_sorted MemberDescriptor.id u.members

/-- types of one Id keep their order -/
theorem filter_types_sort (id : String) :
    (l.sort.types.filter fun t => decide (t.id = id)) = (l.types.filter fun t => decide (t.id = id)).map sortedType := by
  rw [types_sort, sortTypes, filter_sorted, List.filter_map]
  rfl

/-- members of one Id keep their order -/
theorem filter_members_sortedType (t : TypeDescriptor) (id : String) :
    ((sortedType t).members.filter fun m => decide (m.id = id)) = t.members.filter fun m => decide (m.id = id) :=
  filter_sorted MemberDescriptor.id t.members id

/-- a listing in order stays as it is -/
theorem sort_eq_self {l : Listing} (htypes : l.types.Pairwise fun t u => t.id ≤ u.id)
    (hmembers : ∀ t ∈ l.types, t.members.Pairwise fun m n => m.id ≤ n.id) : l.sort = l := by
  have hsorted : l.types.map sortedType = l.types :=
    map_sortedType fun t ht => List.mergeSort_of_pairwise ((hmembers t ht).imp decide_eq_true)
  have hsort : sortTypes (l.types.map sortedType) = l.types := by
    rw [hsorted]
    exact List.mergeSort_of_pairwise (htypes.imp decide_eq_true)
  exact congrArg (Listing.mk l.identity) hsort

theorem sort_sort : l.sort.sort = l.sort := sort_eq_self l.pairwise_types_sort fun _ => l.pairwise_members_sort

/-- **The sorted form is canonical.** All reorderings of a listing with distinct Ids are sorted to one listing, with one
document and one fingerprint. Whatever the Ids, sorting changes the order only: types, and the members of each type, come to
stand by Id, and those of one Id stand as they stood. What is sorted stays, and the check passes a sorted listing exactly
when it passes the listing. -/
theorem sort_canonical :
    (∀ k : Listing, l.Reordered k → l.DistinctIds →
      l.sort = k.sort ∧ l.sort.toJson = k.sort.toJson ∧ l.sort.fingerprint = k.sort.fingerprint) ∧
    l.sort.sort = l.sort ∧ l.Reordered l.sort ∧
    (l.sort.types.Pairwise (fun t u => t.id ≤ u.id) ∧
      ∀ t ∈ l.sort.types, t.members.Pairwise fun m n => m.id ≤ n.id) ∧
    ((∀ id, (l.sort.types.filter fun t => decide (t.id = id)) =
        (l.types.filter fun t => decide (t.id = id)).map sortedType) ∧
      ∀ t ∈ l.types, ∀ id, ((sortedType t).members.filter fun m => decide (m.id = id)) =
        t.members.filter fun m => decide (m.id = id)) ∧
    (l.sort.validate = .ok () ↔ l.validate = .ok ()) := by
  refine ⟨fun k hk hids => ?_, l.sort_sort, l.reordered_sort, ⟨l.pairwise_types_sort, fun t => l.pairwise_members_sort⟩,
    ⟨l.filter_types_sort, fun t _ => filter_members_sortedType t⟩, l.reordered_sort.validate_eq_ok_iff⟩
  have hsort : l.sort = k.sort := sort_reordered hk hids
  rw [hsort]
  exact ⟨rfl, rfl, rfl⟩

/-- an interface before a class, and two members, as `first` and `second` say -/
def shelf (first second : MemberDescriptor) : Listing :=
  ⟨"Lib", [((TypeDescriptor.ofInterface "A").withMember first).withMember second, .ofClass "B"]⟩

/-- the class before the interface -/
def shelfBackward (first second : MemberDescriptor) : Listing :=
  ⟨"Lib", [.ofClass "B", ((TypeDescriptor.ofInterface "A").withMember first).withMember second]⟩

/-- overloads that only differ in what they give stand by that, and the class before the interface -/
theorem sort_canonical_overloads :
    let narrow := MemberDescriptor.method "op" "B"
    let wide := MemberDescriptor.method "op" "C"
    (shelf wide narrow).Reordered (shelfBackward narrow wide) ∧ (shelf wide narrow).DistinctIds ∧
      (shelf wide narrow).sort = (shelfBackward narrow wide).sort ∧
      (shelfBackward narrow wide).sort = shelfBackward narrow wide := by
  intro narrow wide
  have hreordered : (shelf wide narrow).Reordered (shelfBackward narrow wide) :=
    ⟨rfl, _, List.Perm.swap .., .cons ⟨_, List.Perm.refl _, rfl⟩ (.cons ⟨_, List.Perm.swap .., rfl⟩ .nil)⟩
  have hids : (shelf wide narrow).DistinctIds := ⟨by decide, by decide⟩
  exact ⟨hreordered, hids, ((sort_canonical _).1 _ hreordered hids).1, sort_eq_self (by decide) (by decide)⟩

end Listing

end ApiSurface
