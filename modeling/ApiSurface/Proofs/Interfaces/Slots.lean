/-
Which interface slots a type fills itself. The slots of an interface are taken from the nearest type that has any, so a
member of the type fills one exactly when it implements the interface, wherever the members and the types stand.

`mem_interfaceMap_iff`: the slots of the type's own members are all there, or none is.
`interfaceMap_any_owner`, `interfaceMap_any_self`: what is asked of the slots, in terms of the members.
-/
import ApiSurface.Facts.Set
import Mathlib.Data.List.Basic

namespace ApiSurface

/-- the member implements the interface of a name, with the type's parameters replaced by arguments -/
def MemberEntry.standsIn (m : MemberEntry) (arguments : List TypeRef) (name : String) : Bool :=
  (m.facts.explicitInterface.toList ++ m.facts.implements).any fun i => (i.substitute arguments).canonicalName == name

namespace FactSet

variable {s : FactSet} {h : TypeHandle} {entry : TypeEntry} {arguments : List TypeRef} {name : String}
  {slot : InterfaceSlot} {m : MemberEntry}

theorem mem_ownSlots_iff : slot ∈ ownSlots h entry arguments name ↔ ∃ m index, entry.members[index]? = some m ∧
    m.standsIn arguments name = true ∧ slot = ⟨m.facts.name, ⟨h, index⟩⟩ := by
  unfold ownSlots MemberEntry.standsIn
  rw [List.mem_filterMap]
  constructor
  · rintro ⟨⟨m, index⟩, hmem, hslot⟩
    obtain ⟨hstands, hslot⟩ := Option.ite_none_right_eq_some.1 hslot
    exact ⟨m, index, List.mem_zipIdx_iff_getElem?.1 hmem, hstands, (Option.some.inj hslot).symm⟩
  · rintro ⟨m, index, hmem, hstands, rfl⟩
    exact ⟨(m, index), List.mem_zipIdx_iff_getElem?.2 hmem, if_pos hstands⟩

/-- no slot comes from a type that was visited before -/
theorem owner_not_mem_visited (steps : Nat) (visited : List TypeHandle)
    (hslot : slot ∈ s.slotsFrom name steps visited h arguments) : slot.implementation.owner ∉ visited := by
  induction steps generalizing visited h arguments with
  | zero => cases hslot
  | succ steps ih =>
    rw [slotsFrom] at hslot
    split at hslot
    · cases hslot
    · next hnew =>
      split at hslot
      · cases hslot
      · next entry hentry =>
        split at hslot
        · split at hslot
          · cases hslot
          · dsimp only at hslot
            split at hslot
            · cases hslot
            · exact fun hmem => ih (h :: visited) hslot (List.mem_cons_of_mem _ hmem)
        · obtain ⟨m, index, -, -, rfl⟩ := mem_ownSlots_iff.1 hslot
          simpa using hnew

/-- **Own slots.** Among the slots of an interface, those that the type fills itself are those of its own members. -/
theorem mem_interfaceMap_iff (hentry : s.entry? h = some entry) (i : TypeRef) (hown : slot.implementation.owner = h) :
    slot ∈ s.interfaceMap h i ↔ slot ∈ ownSlots h entry [] i.canonicalName := by
  rw [interfaceMap, slotsFrom, if_neg (by simp), hentry]
  dsimp only
  split
  · next hnone =>
    rw [hnone]
    refine iff_of_false (fun hslot => ?_) List.not_mem_nil
    split at hslot
    · cases hslot
    · split at hslot
      · cases hslot
      · exact owner_not_mem_visited _ _ hslot (hown ▸ List.mem_singleton_self h)
  · rfl

/-- the type fills a slot of an interface exactly when one of its members implements the interface -/
theorem interfaceMap_any_owner (hentry : s.entry? h = some entry) (i : TypeRef) :
    ((s.interfaceMap h i).any fun slot => slot.implementation.owner == h) =
      entry.members.any fun m => m.standsIn [] i.canonicalName := by
  rw [Bool.eq_iff_iff, List.any_eq_true, List.any_eq_true]
  constructor
  · rintro ⟨slot, hslot, hown⟩
    obtain ⟨m, index, hm, hstands, -⟩ := mem_ownSlots_iff.1 ((mem_interfaceMap_iff hentry i (eq_of_beq hown)).1 hslot)
    exact ⟨m, List.mem_of_getElem? hm, hstands⟩
  · rintro ⟨m, hm, hstands⟩
    obtain ⟨index, hindex⟩ := List.mem_iff_getElem?.1 hm
    exact ⟨⟨m.facts.name, ⟨h, index⟩⟩,
      (mem_interfaceMap_iff hentry i rfl).2 (mem_ownSlots_iff.2 ⟨m, index, hindex, hstands, rfl⟩), beq_self_eq_true h⟩

/-- a member fills a slot of an interface exactly when it implements the interface -/
theorem interfaceMap_any_self {k : MemberHandle} (hentry : s.entry? k.owner = some entry)
    (hm : entry.members[k.index]? = some m) (i : TypeRef) :
    ((s.interfaceMap k.owner i).any fun slot => slot.implementation == k) = m.standsIn [] i.canonicalName := by
  rw [Bool.eq_iff_iff, List.any_eq_true]
  constructor
  · rintro ⟨slot, hslot, hself⟩
    have hself := eq_of_beq hself
    obtain ⟨m', index, hm', hstands, rfl⟩ :=
      mem_ownSlots_iff.1 ((mem_interfaceMap_iff hentry i (congrArg MemberHandle.owner hself)).1 hslot)
    obtain rfl : index = k.index := congrArg MemberHandle.index hself
    rw [hm] at hm'
    exact Option.some.inj hm' ▸ hstands
  · intro hstands
    exact ⟨⟨m.facts.name, k⟩,
      (mem_interfaceMap_iff hentry i rfl).2 (mem_ownSlots_iff.2 ⟨m, k.index, hm, hstands, rfl⟩), beq_self_eq_true k⟩

end FactSet

end ApiSurface
