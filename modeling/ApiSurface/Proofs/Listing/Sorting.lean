/-
Sorting listings. Sorting is by Id and leaves what has one Id as it was, so where Ids are distinct the order before does not
matter.

`filter_sorted`: what has one Id keeps its order.
`Listing.sort_reordered`: a listing and its reorderings are one when sorted.
-/
import ApiSurface.Proofs.Listing.Reordering
import Mathlib.Data.List.Nodup

namespace ApiSurface

/-! ## By Id -/

section

variable {α : Type} (key : α → String)

theorem idOrder_trans (a b c : α) (hab : decide (key a ≤ key b) = true) (hbc : decide (key b ≤ key c) = true) :
    decide (key a ≤ key c) = true :=
  decide_eq_true (String.le_trans (of_decide_eq_true hab) (of_decide_eq_true hbc))

theorem idOrder_total (a b : α) : (decide (key a ≤ key b) || decide (key b ≤ key a)) = true := by
  rw [Bool.or_eq_true, decide_eq_true_eq, decide_eq_true_eq]
  exact String.le_total _ _

theorem pairwise_sorted (xs : List α) :
    (xs.mergeSort fun a b => decide (key a ≤ key b)).Pairwise fun a b => key a ≤ key b :=
  (List.pairwise_mergeSort (idOrder_trans key) (idOrder_total key) xs).imp of_decide_eq_true

/-- what has one Id keeps its order -/
theorem filter_sorted (xs : List α) (id : String) :
    (xs.mergeSort fun a b => decide (key a ≤ key b)).filter (fun x => decide (key x = id)) =
      xs.filter fun x => decide (key x = id) := by
  have hids : ∀ x ∈ xs.filter (fun x => decide (key x = id)), key x = id := fun x hx =>
    of_decide_eq_true (List.mem_filter.1 hx).2
  have hpairwise : (xs.filter fun x => decide (key x = id)).Pairwise fun a b => decide (key a ≤ key b) = true := by
    refine List.pairwise_of_forall_mem_list fun a ha b hb => decide_eq_true ?_
    have hsame : key a = key b := (hids a ha).trans (hids b hb).symm
    exact hsame ▸ String.le_refl (key a)
  -- in order as they are, these entries are found in the sorted list too, and there are no more of them
  have hsublist := (List.sublist_mergeSort (idOrder_trans key) (idOrder_total key) hpairwise List.filter_sublist).filter
    fun x => decide (key x = id)
  simp only [List.filter_filter, Bool.and_self] at hsublist
  exact (hsublist.eq_of_length ((List.mergeSort_perm _ _).symm.filter _).length_eq).symm

/-- sorting what is sorted -/
theorem sorted_sorted (xs : List α) :
    (xs.mergeSort fun a b => decide (key a ≤ key b)).mergeSort (fun a b => decide (key a ≤ key b)) =
      xs.mergeSort fun a b => decide (key a ≤ key b) :=
  List.mergeSort_of_pairwise ((pairwise_sorted key xs).imp decide_eq_true)

/-- with distinct Ids there is one sorted order -/
theorem sorted_eq_of_perm {xs ys : List α} (hperm : xs.Perm ys) (hkeys : (xs.map key).Nodup) :
    (xs.mergeSort fun a b => decide (key a ≤ key b)) = ys.mergeSort fun a b => decide (key a ≤ key b) := by
  have hsorted := (List.mergeSort_perm xs fun a b => decide (key a ≤ key b)).trans
    (hperm.trans (List.mergeSort_perm ys fun a b => decide (key a ≤ key b)).symm)
  refine List.Perm.eq_of_pairwise (fun a b ha hb hab hba => ?_) (pairwise_sorted key xs) (pairwise_sorted key ys) hsorted
  have ha' : a ∈ xs := (List.mergeSort_perm _ _).mem_iff.1 ha
  have hb' : b ∈ xs := hperm.mem_iff.2 ((List.mergeSort_perm _ _).mem_iff.1 hb)
  exact List.inj_on_of_nodup_map hkeys ha' hb' (String.le_antisymm hab hba)

end

/-! ## Listings -/

namespace Listing

/-- no two types have one Id, and no two members of a type -/
structure DistinctIds (l : Listing) : Prop where
  types : (l.types.map TypeDescriptor.id).Nodup
  members : ∀ t ∈ l.types, (t.members.map MemberDescriptor.id).Nodup

/-- the type with its members sorted -/
def sortedType (t : TypeDescriptor) : TypeDescriptor := { t with members := sortMembers t.members }

theorem map_sortedType {ts : List TypeDescriptor} (h : ∀ t ∈ ts, sortMembers t.members = t.members) :
    ts.map sortedType = ts := by
  refine (List.map_congr_left fun t ht => ?_).trans (List.map_id _)
  rw [sortedType, h t ht]
  rfl

theorem sortedType_reordered {t u : TypeDescriptor} (h : t.Reordered u) (hids : (t.members.map MemberDescriptor.id).Nodup) :
    sortedType t = sortedType u := by
  obtain ⟨members, hperm, rfl⟩ := h
  have hmembers : sortMembers t.members = sortMembers members := sorted_eq_of_perm _ hperm hids
  rw [sortedType, sortedType, hmembers]

/-- **One order.** Where Ids are distinct, listings that differ in their order only are the same when sorted. -/
theorem sort_reordered {l k : Listing} (h : l.Reordered k) (hids : l.DistinctIds) : l.sort = k.sort := by
  have hmap : (l.types.map sortedType).Perm (k.types.map sortedType) :=
    h.types.perm_map fun t ht u _ htu => sortedType_reordered htu (hids.members t ht)
  have hkeys : ((l.types.map sortedType).map TypeDescriptor.id).Nodup := by
    rw [List.map_map]
    exact hids.types
  have htypes : sortTypes (l.types.map sortedType) = sortTypes (k.types.map sortedType) := sorted_eq_of_perm _ hmap hkeys
  unfold sort
  rw [h.identity]
  exact congrArg (Listing.mk _) htypes

end Listing

end ApiSurface
