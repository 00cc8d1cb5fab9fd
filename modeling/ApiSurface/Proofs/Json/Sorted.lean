/-
The form of a value that is held in memory has the members of the value, in the order of their keys.

`rearranges_sorted`: sorting the members of every object is one way to lay a value out anew.
-/
import ApiSurface.Proofs.Json.Records

namespace ApiSurface.Json

variable {α : Type}

/-! ## Sorted members -/

theorem eq_of_compare {k l : String} (h : compare k l = .eq) : k = l := Std.LawfulEqCmp.eq_of_compare h

theorem compare_self (k : String) : compare k k = .eq := Std.ReflCmp.compare_self

theorem lookup_insertMember (key k : String) (v : α) (members : List (String × α)) :
    (insertMember k v members).lookup key = if key = k then some v else members.lookup key := by
  induction members with
  | nil => rw [insertMember, lookup_cons_if]
  | cons m rest ih =>
    obtain ⟨l, w⟩ := m
    unfold insertMember
    split
    · rw [lookup_cons_if]
    · next heq =>
      obtain rfl := eq_of_compare heq
      rw [lookup_cons_if, lookup_cons_if]
      by_cases h : key = k
      · rw [if_pos h, if_pos h]
      · rw [if_neg h, if_neg h, if_neg h]
    · next hgt =>
      have hne : k ≠ l := by
        rintro rfl
        rw [compare_self] at hgt
        cases hgt
      rw [lookup_cons_if, lookup_cons_if, ih]
      by_cases h : key = k
      · rw [if_pos h, if_neg (h ▸ hne), if_pos h]
      · rw [if_neg h, if_neg h]

/-- members in the order of their keys, each key once -/
def KeysAscend (members : List (String × α)) : Prop := members.Pairwise fun m n => compare m.1 n.1 = .lt

theorem mem_insertMember {k : String} {v : α} {members : List (String × α)} {m : String × α}
    (h : m ∈ insertMember k v members) : m = (k, v) ∨ m ∈ members := by
  induction members with
  | nil => exact Or.inl (List.mem_singleton.1 h)
  | cons n rest ih =>
    obtain ⟨l, w⟩ := n
    unfold insertMember at h
    split at h
    · rcases List.mem_cons.1 h with rfl | h
      · exact Or.inl rfl
      · exact Or.inr h
    · rcases List.mem_cons.1 h with rfl | h
      · exact Or.inl rfl
      · exact Or.inr (List.mem_cons_of_mem _ h)
    · rcases List.mem_cons.1 h with rfl | h
      · exact Or.inr List.mem_cons_self
      · exact (ih h).imp_right (List.mem_cons_of_mem _)

theorem keysAscend_insertMember (k : String) (v : α) {members : List (String × α)} (h : KeysAscend members) :
    KeysAscend (insertMember k v members) := by
  induction members with
  | nil => exact List.pairwise_singleton _ _
  | cons n rest ih =>
    obtain ⟨l, w⟩ := n
    obtain ⟨hfirst, hrest⟩ := List.pairwise_cons.1 h
    unfold insertMember
    split
    · next hlt =>
      refine List.pairwise_cons.2 ⟨fun m hm => ?_, h⟩
      rcases List.mem_cons.1 hm with rfl | hm
      · exact hlt
      · exact Std.TransCmp.lt_trans hlt (hfirst m hm)
    · next heq =>
      obtain rfl := eq_of_compare heq
      exact List.pairwise_cons.2 ⟨hfirst, hrest⟩
    · next hgt =>
      refine List.pairwise_cons.2 ⟨fun m hm => ?_, ih hrest⟩
      rcases mem_insertMember hm with hk | hm
      · change compare l m.1 = .lt
        rw [hk]
        exact Std.OrientedCmp.gt_iff_lt.1 hgt
      · exact hfirst m hm

/-- sorting brings in no members -/
theorem sortMembers_subset (members : List (String × α)) : sortMembers members ⊆ members := by
  have hfold : ∀ sorted : List (String × α), ∀ m ∈ members.foldl (fun sorted m => insertMember m.1 m.2 sorted) sorted,
      m ∈ members ∨ m ∈ sorted := by
    induction members with
    | nil => exact fun sorted m hm => Or.inr hm
    | cons n rest ih =>
      intro sorted m hm
      rcases ih _ m hm with hm | hm
      · exact Or.inl (List.mem_cons_of_mem _ hm)
      · rcases mem_insertMember hm with rfl | hm
        · exact Or.inl List.mem_cons_self
        · exact Or.inr hm
  intro m hm
  rcases hfold [] m hm with hm | hm
  · exact hm
  · cases hm

theorem nodup_of_keysAscend {members : List (String × α)} (h : KeysAscend members) :
    (members.map Prod.fst).Nodup := by
  rw [List.Nodup, List.pairwise_map]
  refine h.imp fun {m n} hlt heq => ?_
  rw [heq, compare_self] at hlt
  cases hlt

/-- members that are sorted into others come last under their keys -/
theorem sortMembers_spec (members : List (String × α)) (hnodup : (members.map Prod.fst).Nodup) :
    KeysAscend (sortMembers members) ∧ ∀ key, (sortMembers members).lookup key = members.lookup key := by
  have hfold : ∀ sorted : List (String × α), KeysAscend sorted →
      KeysAscend (members.foldl (fun sorted m => insertMember m.1 m.2 sorted) sorted) ∧
        ∀ key, (members.foldl (fun sorted m => insertMember m.1 m.2 sorted) sorted).lookup key =
          (members.lookup key).or (sorted.lookup key) := by
    induction members with
    | nil => exact fun sorted hsorted => ⟨hsorted, fun key => rfl⟩
    | cons m rest ih =>
      intro sorted hsorted
      obtain ⟨hm, hrest⟩ := List.nodup_cons.1 hnodup
      obtain ⟨hascend, hlookup⟩ := ih hrest _ (keysAscend_insertMember m.1 m.2 hsorted)
      refine ⟨hascend, fun key => ?_⟩
      rw [List.foldl_cons, hlookup, lookup_insertMember, lookup_cons_if]
      by_cases hkey : key = m.1
      · have hnone : rest.lookup key = none := lookup_eq_none_iff.2 (hkey ▸ hm)
        rw [if_pos hkey, if_pos hkey, hnone]
        rfl
      · rw [if_neg hkey, if_neg hkey]
  obtain ⟨hascend, hlookup⟩ := hfold [] List.Pairwise.nil
  exact ⟨hascend, fun key => by rw [sortMembers, hlookup]; exact Option.or_none⟩

/-! ## Sorted values -/

theorem lookup_map (f : Json → Json) (key : String) (members : Members) :
    (members.map fun m => (m.1, f m.2)).lookup key = (members.lookup key).map f := by
  induction members with
  | nil => rfl
  | cons m rest ih =>
    rw [List.map_cons, lookup_cons_if, lookup_cons_if, ih]
    split <;> rfl

theorem sortedItems_eq (items : List Json) : sortedItems items = items.map sorted := by
  induction items with
  | nil => rfl
  | cons item rest ih => rw [sortedItems, ih, List.map_cons]

theorem sortedMembers_eq (members : Members) : sortedMembers members = members.map fun m => (m.1, sorted m.2) := by
  induction members with
  | nil => rfl
  | cons m rest ih => rw [sortedMembers, ih, List.map_cons]

/-- the sorted form of an object: members in the order of their keys, with the sorted values -/
theorem sorted_object {members : Members} (h : (keysOf members).Nodup) :
    ∃ moved, sorted (.object members) = .object moved ∧ KeysAscend moved ∧
      ∀ key, moved.lookup key = (members.lookup key).map sorted := by
  have hkeys : ((members.map fun m => (m.1, sorted m.2)).map Prod.fst).Nodup := by
    rw [List.map_map]
    exact h
  obtain ⟨hascend, hlookup⟩ := sortMembers_spec _ hkeys
  exact ⟨_, by rw [sorted, sortedMembers_eq], hascend, fun key => by rw [hlookup, lookup_map]⟩

/-- **Sorting the members of objects lays a value out anew.** -/
theorem rearranges_sorted : Rearranges sorted where
  null := by rw [sorted]
  bool b := by rw [sorted]
  number n := by rw [sorted]
  string s := by rw [sorted]
  array items := by rw [sorted, sortedItems_eq]
  object members h := by
    obtain ⟨moved, hmoved, hascend, hlookup⟩ := sorted_object h
    exact ⟨moved, hmoved, nodup_of_keysAscend hascend, hlookup⟩

end ApiSurface.Json
