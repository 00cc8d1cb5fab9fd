/-
Definitions that two fact sets share: their facts are the same, references in them are resolved alike, and they lead to no
others. Either set computes their interfaces in the same way, whatever is kept.

`closureWithin_shared`: the computations are the same.
`allInterfaces_sameFacts`, `constraintSet_sameFacts`: so is what is asked of sets that share all definitions.
-/
import ApiSurface.Proofs.Interfaces.Cache

namespace ApiSurface.FactSet

/-! ## Some definitions -/

/-- the definitions are known alike, and lead to none but definitions that are -/
structure Shares (s s' : FactSet) (on : TypeHandle → Prop) : Prop where
  facts : ∀ h, on h → s'.facts? h = s.facts? h
  resolve : ∀ h facts, on h → s.facts? h = some facts → ∀ r ∈ facts.supers, s'.resolve r = s.resolve r
  closed : ∀ h k, on h → s.Leads h k → on k

section

variable {s s' : FactSet} {closure closure' : TypeHandle → Resolving (List TypeRef)}

/-- references are resolved by what types are called -/
theorem resolve_congr (hreferences : s'.entries.map (fun entry => entry.facts.reference) =
      s.entries.map fun entry => entry.facts.reference) (r : TypeRef) : s'.resolve r = s.resolve r := by
  have hfind : ∀ key, s'.find? key = s.find? key := by
    intro key
    have hindex := congrArg (List.findIdx? fun reference => reference.definitionKey? == some key) hreferences
    rw [List.findIdx?_map, List.findIdx?_map] at hindex
    exact congrArg (Option.map TypeHandle.mk) hindex
  unfold resolve
  simp only [hfind]

theorem interfacesVia_congr {r : TypeRef} (hresolve : s'.resolve r = s.resolve r)
    (hclosure : ∀ k, s.resolve r = some k → closure' k = closure k) :
    s'.interfacesVia closure' r = s.interfacesVia closure r := by
  unfold interfacesVia
  rw [hresolve]
  cases hk : s.resolve r with
  | none => rfl
  | some k => simp only [hclosure k hk]

theorem gatherWith_congr {facts : TypeFacts}
    (hvia : ∀ r ∈ facts.supers, s'.interfacesVia closure' r = s.interfacesVia closure r) :
    s'.gatherWith closure' facts = s.gatherWith closure facts := by
  have hdeclared : ∀ is : List TypeRef, (∀ i ∈ is, i ∈ facts.interfaces) →
      (is.mapM fun i => do let extended ← s'.interfacesVia closure' i; return i :: extended) =
        is.mapM fun i => do let extended ← s.interfacesVia closure i; return i :: extended := by
    intro is his
    induction is with
    | nil => rfl
    | cons i rest ih =>
      have hi := hvia i (TypeFacts.mem_supers.2 (Or.inl (his i List.mem_cons_self)))
      rw [List.mapM_cons, List.mapM_cons, hi, ih fun j hj => his j (List.mem_cons_of_mem _ hj)]
  have hinherited : facts.parent?.elim (pure []) (s'.interfacesVia closure') =
      facts.parent?.elim (pure []) (s.interfacesVia closure) := by
    cases hparent : facts.parent? with
    | none => rfl
    | some base => exact hvia base (TypeFacts.mem_supers.2 (Or.inr hparent))
  unfold gatherWith
  rw [hdeclared facts.interfaces fun i hi => hi, hinherited]

/-- **Shared definitions.** Their interfaces are computed in the same way. -/
theorem closureWithin_shared {on : TypeHandle → Prop} (hshares : Shares s s' on) (depth : Nat) {h : TypeHandle}
    (hon : on h) : s'.closureWithin depth h = s.closureWithin depth h := by
  induction depth generalizing h with
  | zero => rfl
  | succ depth ih =>
    apply StateT.ext
    intro known
    rw [run_closureWithin, run_closureWithin, hshares.facts h hon]
    cases hfacts : s.facts? h with
    | none => rfl
    | some facts =>
      have hgather : s'.gatherWith (s'.closureWithin depth) facts = s.gatherWith (s.closureWithin depth) facts :=
        gatherWith_congr fun r hr => interfacesVia_congr (hshares.resolve h facts hon hfacts r hr) fun k hk =>
          ih (hshares.closed h k hon (leads_of_resolve hfacts hr hk))
      simp only [hgather]

end

/-! ## All definitions -/

/-- the types are the same up to what they hold -/
def SameFacts (s s' : FactSet) : Prop := s'.entries.map TypeEntry.facts = s.entries.map TypeEntry.facts

section

variable {s s' : FactSet} (hsame : s.SameFacts s')
include hsame

theorem facts?_sameFacts (h : TypeHandle) : s'.facts? h = s.facts? h := by
  have hget := congrArg (fun facts => facts[h.index]?) hsame
  simpa [facts?, entry?] using hget

theorem resolve_sameFacts (r : TypeRef) : s'.resolve r = s.resolve r := by
  have hreferences := congrArg (List.map TypeFacts.reference) hsame
  rw [List.map_map, List.map_map] at hreferences
  exact resolve_congr hreferences r

theorem definition?_sameFacts (r : TypeRef) : s'.definition? r = s.definition? r := by
  have hfacts : s'.facts? = s.facts? := funext fun h => facts?_sameFacts hsame h
  rw [definition?, definition?, resolve_sameFacts hsame, hfacts]

theorem closure_sameFacts (h : TypeHandle) : s'.closure h = s.closure h := by
  have hlength : s'.entries.length = s.entries.length := by
    simpa using congrArg List.length hsame
  have hshares : Shares s s' fun _ => True :=
    ⟨fun h _ => facts?_sameFacts hsame h, fun _ _ _ _ r _ => resolve_sameFacts hsame r, fun _ _ _ _ => trivial⟩
  rw [closure, closure, hlength]
  exact closureWithin_shared hshares _ trivial

theorem allInterfaces_sameFacts (r : TypeRef) : s'.allInterfaces r = s.allInterfaces r :=
  interfacesVia_congr (resolve_sameFacts hsame r) fun k _ => closure_sameFacts hsame k

theorem partConstraints_sameFacts (visible : TypeRef → Bool) (valueType : Bool) (bound : Option TypeRef)
    (constraints : List TypeRef) :
    s'.partConstraints visible valueType bound constraints = s.partConstraints visible valueType bound constraints := by
  induction constraints generalizing bound with
  | nil => rfl
  | cons c rest ih =>
    rw [partConstraints_cons, partConstraints_cons, isClass, isClass, definition?_sameFacts hsame, shown, shown,
      allInterfaces_sameFacts hsame]
    simp only [ih]

theorem constraintSet_sameFacts (visible : TypeRef → Bool) (parameter : GenericFacts) :
    s'.constraintSet visible parameter = s.constraintSet visible parameter := by
  have hall : s'.allInterfaces = s.allInterfaces := funext fun r => allInterfaces_sameFacts hsame r
  have hdeclared : s'.declaredInterfaces = s.declaredInterfaces := by
    funext r
    rw [declaredInterfaces, declaredInterfaces, definition?_sameFacts hsame]
  have hpruned : s'.pruned = s.pruned := by
    funext bound interfaces inherited
    rw [pruned, pruned, hdeclared]
  rw [constraintSet_eq, constraintSet_eq, partConstraints_sameFacts hsame, hall, hpruned]

end

end ApiSurface.FactSet
