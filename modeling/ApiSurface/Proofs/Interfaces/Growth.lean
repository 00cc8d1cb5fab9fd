/-
Interfaces of facts that grow.

What is asked about the types and references from before is answered as before, if caches agree that did before. What is asked
about added members is asked of one side only. It leaves the caches in agreement if it leads to no cycle from before: only
definitions that lead to one depend on what was asked, and when.

`together_directInterfaces_grown`, `together_constraintSet_grown`: questions from before.
`preserves_constraintSet_grown`: questions about added members.
-/
import ApiSurface.Proofs.Facts.Growth
import ApiSurface.Proofs.Interfaces.Settled
import ApiSurface.Proofs.Interfaces.Slots

namespace ApiSurface.FactSet

open Resolving

/-! ## Constraints of two sets -/

section

variable {s s' : FactSet} {visible visible' : TypeRef → Bool} {R : Closures → Closures → Prop} {P N : TypeRef → Prop}
  (hself : ∀ c, P c → N c) (hclass : ∀ c, P c → s'.isClass c = s.isClass c) (hvisible : ∀ i, N i → visible' i = visible i)
  (hall : ∀ c, P c → s.isClass c = true ∨ visible c = false → Together R (Same N) (s.allInterfaces c) (s'.allInterfaces c))
include hself hclass hvisible hall

theorem together_partConstraints (valueType : Bool) {bound : Option TypeRef} {constraints : List TypeRef}
    (hbound : ∀ base ∈ bound, P base ∧ s.isClass base = true) (hconstraints : ∀ c ∈ constraints, P c) :
    Together R (fun parted parted' =>
        parted = parted' ∧ (∀ base ∈ parted.1, P base ∧ s.isClass base = true) ∧ ∀ i ∈ parted.2, N i)
      (s.partConstraints visible valueType bound constraints) (s'.partConstraints visible' valueType bound constraints) := by
  induction constraints generalizing bound with
  | nil => exact together_pure ⟨rfl, hbound, List.forall_mem_nil _⟩
  | cons c rest ih =>
    obtain ⟨hc, hrest⟩ := List.forall_mem_cons.1 hconstraints
    have hshown : Together R (Same N) (s.shown visible c) (s'.shown visible' c) := by
      unfold shown
      rw [hvisible c (hself c hc)]
      split
      · exact together_pure ⟨rfl, List.forall_mem_singleton.2 (hself c hc)⟩
      · next hhidden =>
        rw [map_eq_pure_bind, map_eq_pure_bind]
        refine (hall c hc (Or.inr (Bool.eq_false_iff.2 hhidden))).bind ?_
        rintro is _ ⟨rfl, his⟩
        refine together_pure ⟨List.filter_congr fun i hi => (hvisible i (his i hi)).symm, fun i hi => ?_⟩
        exact his i (List.mem_filter.1 hi).1
    rw [partConstraints_cons, partConstraints_cons, hclass c hc]
    split_ifs with hvalue hbase
    · exact ih hbound hrest
    · refine ih (fun base heq => ?_) hrest
      obtain rfl := Option.some.inj heq
      exact ⟨hc, (Bool.and_eq_true_iff.1 hbase).2⟩
    · refine hshown.bind ?_
      rintro shown _ ⟨rfl, hshown⟩
      refine (ih hbound hrest).bind ?_
      rintro parted _ ⟨rfl, hbase, hparted⟩
      exact together_pure ⟨rfl, hbase, List.forall_mem_append.2 ⟨hshown, hparted⟩⟩

theorem together_constraintSet (hdeclared : ∀ i, N i → s'.declaredInterfaces i = s.declaredInterfaces i) {g : GenericFacts}
    (hg : ∀ c ∈ g.constraints, P c) :
    Together R (fun bounds bounds' => bounds = bounds') (s.constraintSet visible g) (s'.constraintSet visible' g) := by
  have hinherited : ∀ bound : Option TypeRef, (∀ base ∈ bound, P base ∧ s.isClass base = true) →
      Together R (Same N) (bound.elim (pure []) s.allInterfaces) (bound.elim (pure []) s'.allInterfaces) := by
    intro bound hbound
    cases bound with
    | none => exact together_pure ⟨rfl, List.forall_mem_nil _⟩
    | some base => exact hall base (hbound base rfl).1 (Or.inl (hbound base rfl).2)
  rw [constraintSet_eq, constraintSet_eq]
  refine (together_partConstraints hself hclass hvisible hall _ (by simp) hg).bind ?_
  rintro parted _ ⟨rfl, hbound, hparted⟩
  refine (hinherited _ hbound).bind ?_
  rintro inherited _ ⟨rfl, -⟩
  refine together_pure ?_
  have hsame : (TypeRef.distinct parted.2).map s'.declaredInterfaces = (TypeRef.distinct parted.2).map s.declaredInterfaces :=
    List.map_congr_left fun i hi => hdeclared i (hparted i (mem_of_mem_distinctAfter hi))
  rw [pruned, pruned, hsame]

end

/-! ## Questions from before -/

variable {s s' : FactSet} {extra : TypeEntry → MemberEntry → Prop} {h k : TypeHandle} {visible visible' : TypeRef → Bool}

theorem encloses_mentions (s : FactSet) : s.Encloses s.Mentions where
  supers h facts hfacts r hr := by
    obtain ⟨entry, hentry, rfl⟩ := Option.map_eq_some_iff.1 hfacts
    refine mentions_of_mem hentry ?_
    unfold TypeEntry.references
    rcases TypeFacts.mem_supers.1 hr with hr | hr
    · simp [hr]
    · simp [TypeFacts.baseType_of_mem_parent? hr]
  substitute _ _ hi hr := hi.substitute hr

section

variable (hgrown : Grown extra s s')
include hgrown

theorem shares_grown : Shares s s' s.Has where
  facts _ hh := hgrown.facts? hh
  resolve h facts _ hfacts r hr := hgrown.resolve (s.encloses_mentions.supers h facts hfacts r hr)
  closed _ _ _ hk := has_of_leads hk

theorem closure_grown (hh : s.Has h) : s'.closure h = s.closure h := closure_shared (shares_grown hgrown) hgrown.length hh

theorem allInterfaces_grown {r : TypeRef} (hr : s.Mentions r) : s'.allInterfaces r = s.allInterfaces r :=
  interfacesVia_congr (hgrown.resolve hr) fun _ hk => closure_grown hgrown (index_lt_of_resolve hk)

theorem definition?_grown {r : TypeRef} (hr : s.Mentions r) : s'.definition? r = s.definition? r := by
  rw [definition?, definition?, hgrown.resolve hr]
  cases hk : s.resolve r with
  | none => rfl
  | some k => exact hgrown.facts? (index_lt_of_resolve hk)

theorem together_allInterfaces_grown {r : TypeRef} (hr : s.Mentions r) :
    Together (s.CachesAgree s.Mentions) (Same s.Mentions) (s.allInterfaces r) (s'.allInterfaces r) := by
  rw [allInterfaces_grown hgrown hr]
  exact together_allInterfaces s.encloses_mentions hr

variable (hvisible : ∀ r, s.Mentions r → visible' r = visible r)
include hvisible

/-- **Bounds from before.** -/
theorem together_constraintSet_grown {g : GenericFacts} (hg : ∀ c ∈ g.constraints, s.Mentions c) :
    Together (s.CachesAgree s.Mentions) (fun bounds bounds' => bounds = bounds') (s.constraintSet visible g)
      (s'.constraintSet visible' g) := by
  refine together_constraintSet (fun _ hc => hc) (fun c hc => ?_) hvisible
    (fun _ hc _ => together_allInterfaces_grown hgrown hc) (fun i hi => ?_) hg
  · rw [isClass, isClass, definition?_grown hgrown hc]
  · rw [declaredInterfaces, declaredInterfaces, definition?_grown hgrown hi]

/-- **Interfaces from before.** An added member that implements no interface fills no slots. -/
theorem together_directInterfaces_grown (hextra : ∀ entry m, extra entry m → m.Free) {entry : TypeEntry}
    (hentry : s.entry? h = some entry) :
    Together (s.CachesAgree s.Mentions) (fun is is' => is = is') (s.directInterfaces visible h)
      (s'.directInterfaces visible' h) := by
  have hh : s.Has h := (List.getElem?_eq_some_iff.1 hentry).1
  have hfacts := facts?_of_found hentry
  obtain ⟨entry', hentry', hentries⟩ := hgrown.entry? hentry
  have hfills : ∀ i, ((s'.interfaceMap h i).any fun slot => slot.implementation.owner == h) =
      (s.interfaceMap h i).any fun slot => slot.implementation.owner == h := by
    intro i
    rw [interfaceMap_any_owner hentry, interfaceMap_any_owner hentry']
    refine hentries.members.any_eq (fun m m' heq => by rw [heq]) fun m hm => ?_
    unfold MemberEntry.standsIn
    rw [(hextra entry m hm).explicitInterface, (hextra entry m hm).implements]
    rfl
  have hclosure : Together (s.CachesAgree s.Mentions) (Same s.Mentions) (s.closure h) (s'.closure h) := by
    rw [closure_grown hgrown hh]
    exact together_closure s.encloses_mentions hh
  unfold directInterfaces
  rw [hgrown.facts? hh, hfacts]
  refine hclosure.bind ?_
  rintro is _ ⟨rfl, his⟩
  have hshown : is.filter visible' = is.filter visible := List.filter_congr fun i hi => hvisible i (his i hi)
  rw [hshown]
  by_cases hkind : entry.facts.kind = .interfaceType
  · rw [hkind]
    have hreach : ∀ i ∈ is.filter visible, Together (s.CachesAgree s.Mentions) (fun extended extended' => extended = extended')
        (s.allInterfaces i) (s'.allInterfaces i) := fun i hi =>
      (together_allInterfaces_grown hgrown (his i (List.mem_filter.1 hi).1)).imp fun _ _ hsame => hsame.1
    refine (Together.mapM hreach).bind fun reach reach' hlists => ?_
    rw [List.forall₂_eq_eq_eq] at hlists
    exact together_pure (by rw [hlists])
  · split
    · next hinterface => exact absurd hinterface hkind
    · simp only [hfills]
      cases hbase : entry.facts.baseType with
      | none => exact together_pure rfl
      | some base =>
        have hmentions : s.Mentions base := mentions_of_mem hentry (by simp [TypeEntry.references, hbase])
        refine (together_allInterfaces_grown hgrown hmentions).bind ?_
        rintro inherited _ ⟨rfl, -⟩
        exact together_pure rfl

end

/-! ## Questions about added members -/

/-- the reference leads, in the one set, to no definition that leads back to itself in the other -/
def Untangled (s s' : FactSet) (r : TypeRef) : Prop :=
  ∀ k, s'.resolve r = some k → ∀ l, Relation.ReflTransGen s'.Leads k l → ¬Relation.TransGen s.Leads l l

section

variable (hgrown : Grown extra s s')
include hgrown

theorem leads_grown (hk : s.Leads h k) : s'.Leads h k := by
  obtain ⟨facts, hfacts, r, hr, hresolve⟩ := leads_iff.1 hk
  refine leads_iff.2 ⟨facts, ?_, r, hr, ?_⟩
  · rw [hgrown.facts? (index_lt_of_facts? hfacts), hfacts]
  · rw [hgrown.resolve (s.encloses_mentions.supers h facts hfacts r hr), hresolve]

/-- a definition that leads to no cycle from before leaves the caches in agreement -/
theorem preserves_closure_grown (known : Closures) (n : Nat)
    (huntangled : ∀ l, Relation.ReflTransGen s'.Leads k l → ¬Relation.TransGen s.Leads l l) :
    Preserves (fun known' => s.CachesAgree s.Mentions known known' ∧ s'.room known' < n) (s'.closure k) := by
  induction n generalizing k with
  | zero => exact fun _ hknown => absurd hknown.2 (Nat.not_lt_zero _)
  | succ n ih =>
    by_cases hk : s.Has k
    · have hsettled : s.Settled k := fun l hl =>
        huntangled l (Relation.ReflTransGen.mono (fun _ _ => leads_grown hgrown) _ _ hl)
      intro known' hknown
      refine ⟨?_, preserves_room _ k known' hknown.2⟩
      rw [closure_grown hgrown hk]
      exact preserves_agreement_settled s.encloses_mentions hk hsettled known known' hknown.1
    · rw [closure_eq]
      refine preserves_listOf (I := fun known' => s.CachesAgree s.Mentions known known' ∧ s'.room known' < n) ?_ ?_ ?_ ?_
      · rintro known' ⟨hagree, hroom⟩
        exact ⟨hagree.cons_right hk [], (room_cons_le _ _ _).trans_lt hroom⟩
      · rintro facts known' ⟨hagree, hroom⟩ hnew hfacts
        exact ⟨hagree.cons_right hk [], (room_cons_lt hfacts hnew []).trans_le (Nat.le_of_lt_succ hroom)⟩
      · exact fun l hl => ih fun l' hl' => huntangled l' (.head hl hl')
      · rintro known' list ⟨hagree, hroom⟩
        exact ⟨hagree.cons_right hk list, (room_cons_le _ _ _).trans_lt (Nat.lt_succ_of_lt hroom)⟩

theorem preserves_allInterfaces_grown (known : Closures) {r : TypeRef} (hr : Untangled s s' r) :
    Preserves (s.CachesAgree s.Mentions known) (s'.allInterfaces r) := by
  refine Together.preserves (together_interfacesVia s'.encloses_true trivial fun k hk => ?_)
  have hclosure : Preserves (s.CachesAgree s.Mentions known) (s'.closure k) := fun known' hagree =>
    (preserves_closure_grown hgrown known _ (hr k hk) known' ⟨hagree, Nat.lt_succ_self _⟩).1
  exact hclosure.together_same

/-- **Bounds of added members.** The interfaces of one that is visible, and no class, are not asked for. -/
theorem preserves_constraintSet_grown (known : Closures) (visible : TypeRef → Bool) {g : GenericFacts}
    (hg : ∀ c ∈ g.constraints, s'.isClass c = true ∨ visible c = false → Untangled s s' c) :
    Together (Alongside (s.CachesAgree s.Mentions known)) (fun bounds bounds' => bounds = bounds') (s'.constraintSet visible g)
      (s'.constraintSet visible g) :=
  together_constraintSet (N := fun _ => True) (fun _ _ => trivial) (fun _ _ => rfl) (fun _ _ => rfl)
    (fun _ hc hasked => (preserves_allInterfaces_grown hgrown known (hc hasked)).together_same) (fun _ _ => rfl) hg

end

end ApiSurface.FactSet
