/-
What hidden types hold has no influence on the listing.

The members of base types are read, exported or not: the slots of an interface are those of the nearest type up the base types
that has any. But all that is asked of them is whether the described type fills one itself, and no slot found further up is
its own, even if the base types lead back to it.

`describeType_alike`: a type that is the same in both sets is described alike.
`extract_alike`: so is the module.
-/
import ApiSurface.Proofs.Extraction.Walk
import ApiSurface.Proofs.Interfaces.Shared

namespace ApiSurface

/-- the same facts, and the same contents unless the type is hidden -/
structure TypeEntry.Alike (hidden : TypeEntry → Prop) (entry other : TypeEntry) : Prop where
  facts : other.facts = entry.facts
  isDependency : other.isDependency = entry.isDependency
  shown : ¬hidden entry → other = entry

namespace FactSet

open Extracting

/-- the type is no part of the module, or not exported -/
def Hides (s : FactSet) (f : VisibilityFilter) (entry : TypeEntry) : Prop :=
  entry.isDependency = true ∨ s.isExported f entry.facts = false

/-- the same module up to what hidden types hold: their members and generic parameters -/
structure Alike (f : VisibilityFilter) (s s' : FactSet) : Prop where
  identity : s'.identity = s.identity
  entries : List.Forall₂ (TypeEntry.Alike (s.Hides f)) s.entries s'.entries

variable {s s' : FactSet} {f : VisibilityFilter} (halike : Alike f s s')
include halike

namespace Alike

theorem sameFacts : s.SameFacts s' := map_eq_of_forall₂ (fun _ _ h => h.facts) halike.entries

theorem entry? {h : TypeHandle} {entry : TypeEntry} (hentry : s.entry? h = some entry) :
    ∃ other, s'.entry? h = some other ∧ entry.Alike (s.Hides f) other := by
  obtain ⟨hlt, rfl⟩ := List.getElem?_eq_some_iff.1 hentry
  have hlt' : h.index < s'.entries.length := halike.entries.length_eq ▸ hlt
  exact ⟨s'.entries[h.index], List.getElem?_eq_getElem hlt', halike.entries.get hlt hlt'⟩

theorem moduleTypes : s'.moduleTypes = s.moduleTypes := by
  rw [moduleTypes_eq, moduleTypes_eq, map_eq_of_forall₂ (fun _ _ h => h.isDependency) halike.entries]

theorem isExported : s'.isExported f = s.isExported f := by
  funext facts
  exact isExported_congr (fun r => by rw [definition?_sameFacts halike.sameFacts]) rfl

theorem isVisible : s'.isVisible f = s.isVisible f :=
  isVisible_congr f fun r => by rw [definition?_sameFacts halike.sameFacts]

end Alike

/-! ## Types that are shown -/

theorem describeGeneric_alike (context : String) (g : GenericFacts) :
    s'.describeGeneric f context g = s.describeGeneric f context g := by
  unfold describeGeneric
  rw [halike.isVisible, constraintSet_sameFacts halike.sameFacts]

theorem describeConstraints_alike (context : String) (generics : List GenericFacts) :
    s'.describeConstraints f context generics = s.describeConstraints f context generics := by
  unfold describeConstraints
  simp only [describeGeneric_alike halike]

variable {h : TypeHandle} {entry : TypeEntry} (hentry : s.entry? h = some entry) (hentry' : s'.entry? h = some entry)
include hentry hentry'

theorem directInterfaces_alike (visible : TypeRef → Bool) :
    s'.directInterfaces visible h = s.directInterfaces visible h := by
  have hall : s'.allInterfaces = s.allInterfaces := funext fun r => allInterfaces_sameFacts halike.sameFacts r
  have hslots : ∀ i, ((s'.interfaceMap h i).any fun slot => slot.implementation.owner == h) =
      (s.interfaceMap h i).any fun slot => slot.implementation.owner == h := by
    intro i
    rw [interfaceMap_any_owner hentry', interfaceMap_any_owner hentry]
  unfold directInterfaces
  simp only [facts?_sameFacts halike.sameFacts, closure_sameFacts halike.sameFacts, hall, hslots]

theorem describeMembers_alike (owner : TypeKind) (context : String) (interfaces : List TypeRef) (indices : List Nat) :
    s'.describeMembers f owner context interfaces (indices.map (MemberHandle.mk h)) =
      s.describeMembers f owner context interfaces (indices.map (MemberHandle.mk h)) := by
  have hkeeps : s'.keepsMember f owner = s.keepsMember f owner := by
    funext m
    rw [keepsMember, keepsMember, halike.isVisible]
  induction indices with
  | nil => rfl
  | cons index rest ih =>
    have hsame : s'.member? ⟨h, index⟩ = s.member? ⟨h, index⟩ := by
      rw [member?, member?, hentry, hentry']
    rw [List.map_cons, describeMembers, describeMembers, hsame]
    cases hm : s.member? ⟨h, index⟩ with
    | none => exact ih
    | some m =>
      have hm' : s'.member? ⟨h, index⟩ = some m := hsame.trans hm
      have hdescribe : s'.describeMember f owner context interfaces ⟨h, index⟩ m =
          s.describeMember f owner context interfaces ⟨h, index⟩ m := by
        unfold describeMember
        rw [describeConstraints_alike halike, implementedInterface_eq hm, implementedInterface_eq hm']
      simp only [hkeeps, ih, hdescribe]

/-- **A type that is shown** is described alike. -/
theorem describeType_alike :
    s'.describeType f h entry (s'.membersOf h) = s.describeType f h entry (s.membersOf h) := by
  have hmembers : ∀ s : FactSet, s.entry? h = some entry →
      s.membersOf h = (List.range entry.members.length).map (MemberHandle.mk h) := by
    intro s hentry
    rw [membersOf, hentry, Option.map_some, Option.getD_some]
  unfold describeType
  rw [halike.isVisible, directInterfaces_alike halike hentry hentry', hmembers s hentry, hmembers s' hentry']
  simp only [describeGeneric_alike halike, describeMembers_alike halike hentry hentry']

omit hentry hentry'

/-! ## The module -/

theorem describeTypes_alike (names : List String) (handles : List TypeHandle) (hmodule : ∀ h ∈ handles, h ∈ s.moduleTypes) :
    s'.describeTypes f s'.membersOf names handles = s.describeTypes f s.membersOf names handles := by
  induction handles generalizing names with
  | nil => rfl
  | cons h rest ih =>
    obtain ⟨entry, hentry, hdependency⟩ := s.mem_moduleTypes_iff.1 (hmodule h List.mem_cons_self)
    obtain ⟨other, hother, hsame⟩ := halike.entry? hentry
    have hrest := fun names => ih names fun k hk => hmodule k (List.mem_cons_of_mem _ hk)
    rw [describeTypes, describeTypes, hentry, hother]
    dsimp only
    rw [hsame.facts, halike.isExported]
    by_cases hexported : s.isExported f entry.facts = true
    · have hshown : other = entry := hsame.shown fun hhides => by
        rcases hhides with hhides | hhides
        · rw [hdependency] at hhides
          cases hhides
        · rw [hexported] at hhides
          cases hhides
      subst hshown
      rw [if_pos hexported, if_pos hexported, describeType_alike halike hentry hother]
      simp only [hrest]
    · rw [if_neg hexported, if_neg hexported]
      exact hrest names

omit halike

/-- a square over a hidden class that leads back to it; both are shapes -/
def squareOverHidden (hiddenMembers : List MemberEntry) : FactSet :=
  let shape := TypeRef.topLevel "" "IShape"
  let square := bareType .classType .pub (.topLevel "" "Square") [shape]
  let hidden := bareType .classType .internal (.topLevel "" "Hidden") [shape]
  ⟨"Shapes", [
    { square with facts := { square.facts with baseType := some (.topLevel "" "Hidden") } },
    bareType .interfaceType .pub shape [],
    { hidden with
      facts := { hidden.facts with baseType := some (.topLevel "" "Square") }
      members := hiddenMembers }]⟩

/-- a method that implements shapes -/
def shapeMethod : MemberEntry :=
  let m := methodFacts .pub (.topLevel "" "Square")
  { m with facts := { m.facts with implements := [.topLevel "" "IShape"] } }

end FactSet

end ApiSurface
