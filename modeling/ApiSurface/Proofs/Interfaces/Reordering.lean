/-
Interface lists do not depend on the order of the facts.

`lineage_twins`, `via_reordered`: twins have the same interfaces, and so have references.
`sameAnswer_directInterfaces`, `sameAnswer_constraintSet_reordered`: what is recorded is the same.
-/
import ApiSurface.Proofs.Facts.Reordering
import ApiSurface.Proofs.Interfaces.Cache
import ApiSurface.Proofs.Interfaces.Slots

namespace ApiSurface

namespace FactSet

open Resolving

variable {s s' : FactSet} {h h' : TypeHandle}

/-- twins fill the same slots -/
theorem any_owner_twins (ht : Twins s s' h h') (i : TypeRef) :
    ((s.interfaceMap h i).any fun slot => slot.implementation.owner == h) =
      (s'.interfaceMap h' i).any fun slot => slot.implementation.owner == h' := by
  obtain ⟨entry, entry', hentry, hentry', members, hperm, rfl⟩ := ht
  rw [interfaceMap_any_owner hentry, interfaceMap_any_owner hentry']
  exact hperm.any_eq

variable (hr : s.Reordered s') (hkeys : s.DistinctKeys)
include hr hkeys

/-! ## The graph -/

/-- a step of one graph is a step of the other, between twins -/
theorem leads_twins (ht : Twins s s' h h') {k' : TypeHandle} (hk' : s'.Leads h' k') :
    ∃ k, s.Leads h k ∧ Twins s s' k k' := by
  obtain ⟨facts, hfacts, r, hmem, hresolve⟩ := leads_iff.1 hk'
  rw [← ht.facts?_eq] at hfacts
  rcases resolve_twins hr hkeys r with ⟨-, hnone⟩ | ⟨k, l, hk, hl, htwins⟩
  · rw [hnone] at hresolve
    cases hresolve
  · obtain rfl : l = k' := Option.some.inj (hl.symm.trans hresolve)
    exact ⟨k, leads_of_resolve hfacts hmem hk, htwins⟩

theorem acyclic_reordered (hs : s.Acyclic) : s'.Acyclic := by
  have hcycle : ∀ h h', Twins s s' h h' → ¬Relation.TransGen s'.Leads h' h' := by
    intro h
    induction h using hs.induction with
    | step h ih =>
      intro h' ht hh'
      -- a cycle may as well begin one step later
      obtain ⟨k', hstep, hback⟩ := Relation.TransGen.head'_iff.1 hh'
      obtain ⟨k, hk, htk⟩ := leads_twins hr hkeys ht hstep
      exact ih k (.single hk) k' htk (Relation.TransGen.tail' hback hstep)
  intro h' hh'
  obtain ⟨k', hstep, -⟩ := Relation.TransGen.head'_iff.1 hh'
  obtain ⟨facts, hfacts, -⟩ := leads_iff.1 hstep
  obtain ⟨entry, hentry, -⟩ := Option.map_eq_some_iff.1 hfacts
  obtain ⟨h, ht⟩ := hr.symm.exists_twin hentry
  exact hcycle h h' ht.symm hh'

/-! ## Interface lists -/

variable {hs : s.Acyclic} {hs' : s'.Acyclic}

theorem via_of_twins {all all' : TypeHandle → List TypeRef} {r : TypeRef}
    (hall : ∀ k k', s.resolve r = some k → Twins s s' k k' → all k = all' k') : s.via all r = s'.via all' r := by
  unfold via
  rcases resolve_twins hr hkeys r with ⟨hnone, hnone'⟩ | ⟨k, k', hk, hk', ht⟩
  · rw [hnone, hnone']
  · rw [hk, hk']
    exact congrArg (List.map _) (hall k k' hk ht)

/-- **Twins have the same interfaces.** -/
theorem lineage_twins (ht : Twins s s' h h') : s.lineage hs h = s'.lineage hs' h' := by
  induction h using hs.induction generalizing h' with
  | step h ih =>
    rw [lineage_eq, lineage_eq]
    congr 1
    refine gathered_congr ht.facts?_eq fun facts hfacts r hmem => ?_
    exact via_of_twins hr hkeys fun k k' hk htk => ih k (.single (leads_of_resolve hfacts hmem hk)) htk

theorem via_reordered : s.via (s.lineage hs) = s'.via (s'.lineage hs') := by
  funext r
  exact via_of_twins hr hkeys fun k k' _ ht => lineage_twins hr hkeys ht

/-! ## Recorded interfaces -/

variable (visible : TypeRef → Bool)

theorem sameAnswer_allInterfaces (r : TypeRef) : SameAnswer hs hs' (s.allInterfaces r) (s'.allInterfaces r) := by
  refine ⟨_, answers_allInterfaces r, ?_⟩
  rw [via_reordered hr hkeys]
  exact answers_allInterfaces r

/-- **Recorded interfaces.** -/
theorem sameAnswer_directInterfaces (ht : Twins s s' h h') :
    SameAnswer hs hs' (s.directInterfaces visible h) (s'.directInterfaces visible h') := by
  have hvia : s.via (s.lineage hs) = s'.via (s'.lineage hs') := via_reordered hr hkeys
  have hlineage : s.lineage hs h = s'.lineage hs' h' := lineage_twins hr hkeys ht
  have hfacts' := ht.facts?_eq
  cases hfacts : s.facts? h with
  | none =>
    rw [hfacts] at hfacts'
    rw [directInterfaces, directInterfaces, hfacts, ← hfacts']
    exact sameAnswer_pure []
  | some facts =>
    rw [hfacts] at hfacts'
    by_cases hkind : facts.kind = .interfaceType
    · refine ⟨_, answers_directInterfaces_interface visible hfacts hkind, ?_⟩
      rw [hlineage, hvia]
      exact answers_directInterfaces_interface visible hfacts'.symm hkind
    · refine ⟨_, answers_directInterfaces_other visible hfacts hkind, ?_⟩
      rw [hlineage, hvia]
      simp only [any_owner_twins ht]
      exact answers_directInterfaces_other visible hfacts'.symm hkind

/-- **Recorded bounds.** -/
theorem sameAnswer_constraintSet_reordered (parameter : GenericFacts) :
    SameAnswer hs hs' (s.constraintSet visible parameter) (s'.constraintSet visible parameter) :=
  sameAnswer_constraintSet visible (sameAnswer_allInterfaces hr hkeys) (definition?_reordered hr hkeys) parameter

end FactSet

end ApiSurface
