/-
The definition graph, and the interfaces of a definition by plain recursion over it.

A definition leads to the definitions behind the interfaces it declares and, unless it is an interface, behind its base
type. Where no definition leads back to itself the recursion ends without any bound or cache: every step leads to a
definition from which fewer can be reached.

`height_lt`, `height_le`: the definitions that can be reached become fewer, and there are no more than the set knows.
`lineage_eq`: the recursion.
-/
import ApiSurface.Interfaces.Closure
import Mathlib.Data.Set.Card
import Mathlib.Logic.Relation

namespace ApiSurface

/-! ## The graph -/

/-- the base type, where it brings in interfaces: an interface has none that does -/
def TypeFacts.parent? (facts : TypeFacts) : Option TypeRef :=
  match facts.kind with
  | .interfaceType => none
  | _ => facts.baseType

/-- the references that bring in interfaces -/
def TypeFacts.supers (facts : TypeFacts) : List TypeRef := facts.interfaces ++ facts.parent?.toList

theorem TypeFacts.mem_supers {facts : TypeFacts} {r : TypeRef} :
    r ∈ facts.supers ↔ r ∈ facts.interfaces ∨ r ∈ facts.parent? := by
  rw [supers, List.mem_append, Option.mem_toList, Option.mem_def]

theorem TypeFacts.baseType_of_mem_parent? {facts : TypeFacts} {r : TypeRef} (hr : r ∈ facts.parent?) :
    facts.baseType = some r := by
  unfold parent? at hr
  split at hr
  · cases hr
  · exact hr

namespace FactSet

/-- the definitions behind what brings in interfaces -/
def next (s : FactSet) (h : TypeHandle) : List TypeHandle :=
  match s.facts? h with
  | none => []
  | some facts => facts.supers.filterMap s.resolve

/-- the one definition declares or extends the other -/
def Leads (s : FactSet) (h k : TypeHandle) : Prop := k ∈ s.next h

instance (s : FactSet) (h k : TypeHandle) : Decidable (s.Leads h k) := inferInstanceAs (Decidable (k ∈ s.next h))

/-- no definition leads back to itself -/
def Acyclic (s : FactSet) : Prop := ∀ h, ¬Relation.TransGen s.Leads h h

variable {s : FactSet} {h k : TypeHandle} {facts : TypeFacts} {r : TypeRef}

theorem leads_iff : s.Leads h k ↔ ∃ facts, s.facts? h = some facts ∧ ∃ r ∈ facts.supers, s.resolve r = some k := by
  unfold Leads next
  cases hfacts : s.facts? h with
  | none => simp
  | some facts => simp [List.mem_filterMap]

theorem leads_of_resolve (hfacts : s.facts? h = some facts) (hr : r ∈ facts.supers) (hk : s.resolve r = some k) :
    s.Leads h k :=
  leads_iff.2 ⟨facts, hfacts, r, hr, hk⟩

/-- what a reference is resolved to is known -/
theorem index_lt_of_resolve (hk : s.resolve r = some k) : k.index < s.entries.length := by
  obtain ⟨key, -, hfind⟩ := Option.bind_eq_some_iff.1 hk
  obtain ⟨index, hindex, rfl⟩ := Option.map_eq_some_iff.1 hfind
  exact (List.findIdx?_eq_some_iff_getElem.1 hindex).1

theorem index_lt_of_facts? (hfacts : s.facts? h = some facts) : h.index < s.entries.length := by
  obtain ⟨entry, hentry, -⟩ := Option.map_eq_some_iff.1 hfacts
  exact (List.getElem?_eq_some_iff.1 hentry).1

theorem facts?_of_found {entry : TypeEntry} (hentry : s.entry? h = some entry) : s.facts? h = some entry.facts := by
  rw [facts?, hentry, Option.map_some]

/-- what holds of all facts holds of those found by a handle -/
theorem of_facts? {p : TypeFacts → Prop} (hp : ∀ entry ∈ s.entries, p entry.facts) (h : TypeHandle) (facts : TypeFacts)
    (hfacts : s.facts? h = some facts) : p facts := by
  obtain ⟨entry, hentry, rfl⟩ := Option.map_eq_some_iff.1 hfacts
  exact hp entry (List.mem_of_getElem? hentry)

/-- a graph in which every definition leads to earlier ones only has no cycles -/
theorem acyclic_of_earlier (hearlier : ∀ index < s.entries.length, ∀ k ∈ s.next ⟨index⟩, k.index < index) : s.Acyclic := by
  have hlead : ∀ h k, s.Leads h k → k.index < h.index := by
    intro h k hk
    obtain ⟨facts, hfacts, -⟩ := leads_iff.1 hk
    exact hearlier h.index (index_lt_of_facts? hfacts) k hk
  have hpath : ∀ h k, Relation.TransGen s.Leads h k → k.index < h.index := by
    intro h k hk
    induction hk with
    | single hk => exact hlead _ _ hk
    | tail _ hk ih => exact (hlead _ _ hk).trans ih
  exact fun h hh => Nat.lt_irrefl _ (hpath h h hh)

/-! ## Heights -/

/-- the definitions that a definition leads to, directly or not -/
def Below (s : FactSet) (h : TypeHandle) : Set TypeHandle := {k | Relation.TransGen s.Leads h k}

/-- all that is led to is among the definitions that are known -/
theorem below_subset (s : FactSet) (h : TypeHandle) :
    s.Below h ⊆ (Finset.range s.entries.length).image TypeHandle.mk := by
  intro k hk
  obtain ⟨_, -, hlast⟩ := Relation.TransGen.tail'_iff.1 hk
  obtain ⟨_, -, r, -, hr⟩ := leads_iff.1 hlast
  exact Finset.mem_coe.2 (Finset.mem_image.2 ⟨k.index, Finset.mem_range.2 (index_lt_of_resolve hr), rfl⟩)

theorem finite_below (s : FactSet) (h : TypeHandle) : (s.Below h).Finite :=
  (Finset.finite_toSet _).subset (s.below_subset h)

/-- how many definitions a definition leads to -/
noncomputable def height (s : FactSet) (h : TypeHandle) : Nat := (s.Below h).ncard

theorem height_le (s : FactSet) (h : TypeHandle) : s.height h ≤ s.entries.length :=
  calc
    s.height h ≤ ((Finset.range s.entries.length).image TypeHandle.mk).card := by
      rw [← Set.ncard_coe_finset]
      exact Set.ncard_le_ncard (s.below_subset h) (Finset.finite_toSet _)
    _ ≤ (Finset.range s.entries.length).card := Finset.card_image_le
    _ = s.entries.length := Finset.card_range _

theorem height_lt (hs : s.Acyclic) (hk : s.Leads h k) : s.height k < s.height h := by
  refine Set.ncard_lt_ncard ⟨?_, ?_⟩ (s.finite_below h)
  · intro l hl
    exact Relation.TransGen.head hk hl
  · intro hsubset
    exact hs k (hsubset (Relation.TransGen.single hk))

theorem height_lt_of_transGen (hs : s.Acyclic) (hk : Relation.TransGen s.Leads h k) : s.height k < s.height h := by
  induction hk with
  | single hlead => exact height_lt hs hlead
  | tail _ hlead ih => exact (height_lt hs hlead).trans ih

/-- what holds of a definition when it holds of all it leads to holds of every definition -/
theorem Acyclic.induction (hs : s.Acyclic) {p : TypeHandle → Prop}
    (step : ∀ h, (∀ k, Relation.TransGen s.Leads h k → p k) → p h) (h : TypeHandle) : p h := by
  induction hheight : s.height h using Nat.strongRecOn generalizing h with
  | ind n ih =>
    apply step
    intro k hk
    exact ih (s.height k) (hheight ▸ height_lt_of_transGen hs hk) k rfl

/-! ## Plain recursion -/

/-- the interfaces of the definition behind a reference, with the reference's arguments -/
def via (s : FactSet) (all : TypeHandle → List TypeRef) (r : TypeRef) : List TypeRef :=
  match s.resolve r with
  | none => []
  | some h => (all h).map (TypeRef.substitute r.withoutByRef.arguments)

/-- the interfaces a definition declares, each followed by what it extends, then those of its base type -/
def gathered (s : FactSet) (all : TypeHandle → List TypeRef) (h : TypeHandle) : List TypeRef :=
  match s.facts? h with
  | none => []
  | some facts => facts.interfaces.flatMap (fun i => i :: s.via all i) ++ facts.parent?.toList.flatMap (s.via all)

/-- all interfaces of a definition, each name at its first place -/
def lineage (s : FactSet) (hs : s.Acyclic) (h : TypeHandle) : List TypeRef :=
  TypeRef.distinct (s.gathered (fun k => if _hk : s.Leads h k then s.lineage hs k else []) h)
termination_by s.height h
decreasing_by exact height_lt hs _hk

theorem via_of_resolve (all : TypeHandle → List TypeRef) (hr : s.resolve r = some k) :
    s.via all r = (all k).map (TypeRef.substitute r.withoutByRef.arguments) := by
  rw [via, hr]

theorem via_congr {all all' : TypeHandle → List TypeRef} (hall : ∀ k, s.resolve r = some k → all k = all' k) :
    s.via all r = s.via all' r := by
  unfold via
  cases hr : s.resolve r with
  | none => rfl
  | some k => exact congrArg (List.map _) (hall k hr)

/-- gathering asks only what the definition leads to -/
theorem gathered_congr {s' : FactSet} {h' : TypeHandle} {all all' : TypeHandle → List TypeRef}
    (hsame : s.facts? h = s'.facts? h')
    (hvia : ∀ facts, s.facts? h = some facts → ∀ r ∈ facts.supers, s.via all r = s'.via all' r) :
    s.gathered all h = s'.gathered all' h' := by
  unfold gathered
  rw [← hsame]
  cases hfacts : s.facts? h with
  | none => rfl
  | some facts =>
    have hinterfaces : ∀ i ∈ facts.interfaces, i :: s.via all i = i :: s'.via all' i := fun i hi => by
      rw [hvia facts hfacts i (TypeFacts.mem_supers.2 (Or.inl hi))]
    have hparent : ∀ b ∈ facts.parent?.toList, s.via all b = s'.via all' b := fun b hb =>
      hvia facts hfacts b (TypeFacts.mem_supers.2 (Or.inr (Option.mem_toList.1 hb)))
    dsimp only
    rw [List.flatMap_congr hinterfaces, List.flatMap_congr hparent]

/-- **The recursion.** -/
theorem lineage_eq (hs : s.Acyclic) (h : TypeHandle) :
    s.lineage hs h = TypeRef.distinct (s.gathered (s.lineage hs) h) := by
  rw [lineage]
  congr 1
  refine gathered_congr rfl fun facts hfacts r hr => via_congr fun k hk => ?_
  rw [dif_pos (leads_of_resolve hfacts hr hk)]

/-! ## A small hierarchy -/

/-- a type without members -/
def bareType (kind : TypeKind) (visibility : Visibility) (reference : TypeRef) (interfaces : List TypeRef) : TypeEntry where
  facts := ⟨reference, visibility, kind, false, false, none, interfaces⟩
  generics := []
  members := []
  isDependency := false

/-- a type parameter `T` -/
def typeT : TypeRef := .parameter "T" 0 false

/-- an interface of one argument -/
def interfaceOf (name : String) (item : TypeRef) : TypeRef := .named none (name ++ "\x601") none [item]

/-- lists of shapes by way of a hidden interface -/
def shapes : FactSet where
  identity := "Shapes"
  entries := [
    bareType .interfaceType .pub (.topLevel "" "IShape") [],
    bareType .interfaceType .pub (interfaceOf "IList" typeT) [.topLevel "" "IShape"],
    bareType .interfaceType .internal (interfaceOf "IHidden" typeT) [interfaceOf "IList" typeT],
    bareType .classType .pub (.topLevel "" "Drawing") [interfaceOf "IHidden" (.topLevel "" "Circle")]]

theorem acyclic_shapes : shapes.Acyclic := acyclic_of_earlier (by decide)

/-- hide the one definition that a hierarchy hides -/
def unhidden (r : TypeRef) : Bool := r.definitionKey? != some "IHidden\x601"

end FactSet

end ApiSurface
