/-
The same facts in another order: types may stand in any order, and so may the members of each type. Types get other
handles, but where no two types have one definition key, references find the same types.

`resolve_twins`: a reference is resolved to twins, the handles of one type.
`definition?_reordered`: so it has the same definition.
-/
import ApiSurface.Facts.Set
import ApiSurface.Proofs.AnyOrder

namespace ApiSurface

/-- the type with its members in another order -/
def TypeEntry.Reordered (entry other : TypeEntry) : Prop :=
  ∃ members, entry.members.Perm members ∧ other = { entry with members := members }

theorem TypeEntry.Reordered.symm {entry other : TypeEntry} (h : entry.Reordered other) : other.Reordered entry := by
  obtain ⟨members, hperm, rfl⟩ := h
  exact ⟨entry.members, hperm.symm, rfl⟩

theorem TypeEntry.Reordered.facts_eq {entry other : TypeEntry} (h : entry.Reordered other) : entry.facts = other.facts := by
  obtain ⟨members, -, rfl⟩ := h
  rfl

namespace FactSet

/-- the facts with the types, and the members of each, in another order -/
structure Reordered (s s' : FactSet) : Prop where
  identity : s'.identity = s.identity
  entries : AnyOrder TypeEntry.Reordered s.entries s'.entries

/-- no two types have one definition key -/
def DistinctKeys (s : FactSet) : Prop :=
  (s.entries.filterMap fun entry => entry.facts.reference.definitionKey?).Nodup

/-- the handles stand for the same type in two sets -/
def Twins (s s' : FactSet) (h h' : TypeHandle) : Prop :=
  ∃ entry entry', s.entry? h = some entry ∧ s'.entry? h' = some entry' ∧ entry.Reordered entry'

variable {s s' : FactSet} {h h' : TypeHandle} {entry : TypeEntry} {key : String} {r : TypeRef}

theorem Twins.symm (ht : Twins s s' h h') : Twins s' s h' h := by
  obtain ⟨entry, entry', hentry, hentry', hreordered⟩ := ht
  exact ⟨entry', entry, hentry', hentry, hreordered.symm⟩

theorem Twins.facts?_eq (ht : Twins s s' h h') : s.facts? h = s'.facts? h' := by
  obtain ⟨entry, entry', hentry, hentry', hreordered⟩ := ht
  rw [facts?, facts?, hentry, hentry', Option.map_some, Option.map_some, hreordered.facts_eq]

theorem Reordered.symm (hr : s.Reordered s') : s'.Reordered s :=
  ⟨hr.identity.symm, hr.entries.symm.imp fun _ _ _ _ he => he.symm⟩

theorem Reordered.distinctKeys (hr : s.Reordered s') (hkeys : s.DistinctKeys) : s'.DistinctKeys := by
  have hperm : (s.entries.map TypeEntry.facts).Perm (s'.entries.map TypeEntry.facts) :=
    hr.entries.perm_map fun _ _ _ _ he => he.facts_eq
  have hkeyed := (hperm.filterMap fun facts => facts.reference.definitionKey?).nodup_iff
  rw [List.filterMap_map, List.filterMap_map] at hkeyed
  exact hkeyed.1 hkeys

theorem exists_entry? (hentry : entry ∈ s.entries) : ∃ h, s.entry? h = some entry := by
  obtain ⟨index, hindex⟩ := List.mem_iff_getElem?.1 hentry
  exact ⟨⟨index⟩, hindex⟩

/-- every type has a twin -/
theorem Reordered.exists_twin (hr : s.Reordered s') (hentry : s.entry? h = some entry) : ∃ h', Twins s s' h h' := by
  obtain ⟨entry', hmem, hreordered⟩ := hr.entries.exists_mem (List.mem_of_getElem? hentry)
  obtain ⟨h', hentry'⟩ := exists_entry? hmem
  exact ⟨h', entry, entry', hentry, hentry', hreordered⟩

/-- a type is found by its key, when no other has it -/
theorem find?_eq_some_iff (hkeys : s.DistinctKeys) :
    s.find? key = some h ↔ ∃ facts, s.facts? h = some facts ∧ facts.reference.definitionKey? = some key := by
  constructor
  · intro hfind
    obtain ⟨index, hindex, rfl⟩ := Option.map_eq_some_iff.1 hfind
    obtain ⟨hlt, hkey, -⟩ := List.findIdx?_eq_some_iff_getElem.1 hindex
    refine ⟨s.entries[index].facts, ?_, eq_of_beq hkey⟩
    rw [facts?, entry?, List.getElem?_eq_getElem hlt, Option.map_some]
  · rintro ⟨facts, hfacts, hkey⟩
    obtain ⟨entry, hentry, rfl⟩ := Option.map_eq_some_iff.1 hfacts
    obtain ⟨hlt, rfl⟩ := List.getElem?_eq_some_iff.1 hentry
    have hother : ∀ index (hindex : index < h.index), ¬s.entries[index].facts.reference.definitionKey? = some key := by
      intro index hindex hsame
      have hpairs := List.pairwise_iff_getElem.1 (List.pairwise_filterMap.1 hkeys) index h.index (by omega) hlt hindex
      exact hpairs key hsame key hkey rfl
    refine Option.map_eq_some_iff.2 ⟨h.index, List.findIdx?_eq_some_iff_getElem.2 ⟨hlt, by simp [hkey], ?_⟩, rfl⟩
    intro index hindex
    simpa using hother index hindex

variable (hr : s.Reordered s') (hkeys : s.DistinctKeys)
include hr hkeys

/-- **References.** What a reference is resolved to in one set is the twin of what it is resolved to in the other. -/
theorem resolve_twins (r : TypeRef) : (s.resolve r = none ∧ s'.resolve r = none) ∨
    ∃ h h', s.resolve r = some h ∧ s'.resolve r = some h' ∧ Twins s s' h h' := by
  have htwin : ∀ {s s' : FactSet} (key : String) (h : TypeHandle), s.Reordered s' → s.DistinctKeys →
      s.find? key = some h → ∃ h', s'.find? key = some h' ∧ Twins s s' h h' := by
    intro s s' key h hr hkeys hfind
    obtain ⟨facts, hfacts, hkey⟩ := (find?_eq_some_iff hkeys).1 hfind
    obtain ⟨entry, hentry, -⟩ := Option.map_eq_some_iff.1 hfacts
    obtain ⟨h', ht⟩ := hr.exists_twin hentry
    exact ⟨h', (find?_eq_some_iff (hr.distinctKeys hkeys)).2 ⟨facts, ht.facts?_eq ▸ hfacts, hkey⟩, ht⟩
  unfold resolve
  cases r.withoutByRef.definitionKey? with
  | none => exact Or.inl ⟨rfl, rfl⟩
  | some key =>
    rw [Option.bind_some, Option.bind_some]
    cases hfind : s.find? key with
    | some h =>
      obtain ⟨h', hfind', ht⟩ := htwin key h hr hkeys hfind
      exact Or.inr ⟨h, h', rfl, hfind', ht⟩
    | none =>
      refine Or.inl ⟨rfl, ?_⟩
      cases hfind' : s'.find? key with
      | none => rfl
      | some h' =>
        obtain ⟨h, hfound, -⟩ := htwin key h' hr.symm (hr.distinctKeys hkeys) hfind'
        rw [hfind] at hfound
        cases hfound

theorem definition?_reordered (r : TypeRef) : s.definition? r = s'.definition? r := by
  unfold definition?
  rcases resolve_twins hr hkeys r with ⟨hnone, hnone'⟩ | ⟨h, h', hsome, hsome', ht⟩
  · rw [hnone, hnone']
    rfl
  · rw [hsome, hsome', Option.bind_some, Option.bind_some, ht.facts?_eq]

end FactSet

end ApiSurface
