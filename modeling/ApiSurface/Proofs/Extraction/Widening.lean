/-
A wider filter removes nothing.

Interfaces and bounds may change when more is visible, and with them Ids; what is listed at all, and under which signatures,
only grows.

`isExported_widened`, `keepsMember_widened`: what a filter keeps, a wider one keeps.
`describes_signature`: the signature of a listed member is one of its facts, whatever is visible.
`isChange_of_mem_violations`: where every type and every member has a partner, nothing is removed.
`extract_widened`: the two listings.
-/
import ApiSurface.Proofs.Comparison.Compatibility
import ApiSurface.Proofs.Extraction.Success

namespace ApiSurface

/-! ## Filters -/

/-- the other filter keeps every visibility that this one keeps -/
def VisibilityFilter.Within (f g : VisibilityFilter) : Prop := ∀ v, f.keeps v = true → g.keeps v = true

/-- a type takes part by its name, and a member by its signature -/
structure DescriptorFilter.ByIdentity (keep : DescriptorFilter) : Prop where
  types : ∀ t u : TypeDescriptor, t.name = u.name → keep (.type t) = keep (.type u)
  members : ∀ m n : MemberDescriptor, m.signature = n.signature → keep (.member m) = keep (.member n)

/-! ## Comparisons without removals -/

namespace Comparison

variable {keep : DescriptorFilter} {baseline candidate : Listing}

/-- a change, and no removal -/
def IsChange (v : Violation) : Prop := v.kind = .typeChanged ∨ v.kind = .memberChanged

/-- **Nothing is removed** where every type has a partner, and every member a partner's member of its signature. -/
theorem isChange_of_mem_violations
    (hpartners : ∀ t ∈ keep.types baseline, ∃ c, named? (keep.types candidate) t.name = some c ∧
      ∀ m ∈ keep.members t, ∃ n ∈ keep.members c, n.signature = m.signature)
    {v : Violation} (hv : v ∈ violations baseline candidate keep) : IsChange v := by
  obtain ⟨t, ht, hv⟩ := List.mem_flatMap.1 hv
  obtain ⟨c, hc, hmembers⟩ := hpartners t ht
  rw [hc] at hv
  cases finding_of_mem hv with
  | changed _ => exact Or.inl rfl
  | lostMember hm hrivals =>
    obtain ⟨n, hn, hsignature⟩ := hmembers _ hm
    have hrival : n ∈ rivals keep c _ := List.mem_filter.2 ⟨hn, decide_eq_true hsignature⟩
    exact absurd (hrivals ▸ hrival) List.not_mem_nil
  | changedMember _ _ _ => exact Or.inr rfl

end Comparison

open Comparison

/-! ## Members -/

/-- the signature that a member is listed under -/
def MemberEntry.signature (m : MemberEntry) : MemberSignature where
  kind := m.facts.kind
  name :=
    match m.facts.explicitInterface with
    | some i => i.canonicalName ++ "." ++ FactSet.methodName m.facts.name m.generics
    | none => FactSet.methodName m.facts.name m.generics
  parameters := m.parameters.map fun p => (FactSet.directionOf p, p.type.canonicalName)

namespace FactSet

theorem describes_signature {d : MemberDescriptor} {m : MemberEntry} (h : Describes d m) : d.signature = m.signature := by
  have hparameters : d.parameters.map (fun p => (p.direction, p.type)) =
      m.parameters.map fun p => (directionOf p, p.type.canonicalName) := by
    rw [h.parameters]
    calc
      _ = (m.parameters.zipIdx.map Prod.fst).map fun p => (directionOf p, p.type.canonicalName) := by
        rw [List.map_map, List.map_map]
        rfl
      _ = _ := by rw [List.zipIdx_map_fst]
  have hname : d.qualifiedName = m.signature.name := by
    rw [MemberDescriptor.qualifiedName, MemberEntry.signature, h.explicitInterface, h.name]
    cases m.facts.explicitInterface <;> rfl
  rw [MemberDescriptor.signature, hname, h.kind, hparameters]
  rfl

variable {s : FactSet} {f g : VisibilityFilter}

/-- the members of a listed type have the signatures of those that are kept -/
theorem Covers.signatures {t : TypeDescriptor} {entry : TypeEntry} (h : s.Covers f t entry) :
    (t.members.map MemberDescriptor.signature).Perm
      ((entry.members.filter fun m => s.keepsMember f entry.facts.kind m.facts).map MemberEntry.signature) :=
  h.members.perm_map fun _ _ _ _ hdescribes => describes_signature hdescribes

/-! ## What is listed -/

section

variable (hfg : f.Within g)
include hfg

theorem isExported_widened {facts : TypeFacts} (h : s.isExported f facts = true) : s.isExported g facts = true := by
  induction facts using isExported.induct s with
  | case1 facts ih =>
    rw [isExported_eq, Bool.and_eq_true] at h ⊢
    refine ⟨hfg _ h.1, ?_⟩
    rw [Option.all_eq_true] at *
    intro outer houter
    obtain ⟨declaring, hdeclaring, hknown⟩ := Option.bind_eq_some_iff.1 houter
    exact ih declaring hdeclaring outer hknown (h.2 outer houter)

theorem isVisible_widened {r : TypeRef} (h : s.isVisible f r = true) : s.isVisible g r = true := by
  unfold isVisible at h ⊢
  cases hfacts : s.definition? r with
  | none => rfl
  | some facts =>
    rw [hfacts] at h
    exact isExported_widened hfg h

theorem keeps_widened {owner : TypeKind} {m : MemberFacts} (h : s.Keeps f owner m) : s.Keeps g owner m := by
  obtain ⟨hexplicit, hown, hvalue⟩ := h
  exact ⟨fun i hi => isVisible_widened hfg (hexplicit i hi), fun hnone => hfg _ (hown hnone), hvalue⟩

theorem keepsMember_widened {owner : TypeKind} {m : MemberFacts} (h : s.keepsMember f owner m = true) :
    s.keepsMember g owner m = true :=
  (s.keepsMember_iff g owner m).2 (keeps_widened hfg ((s.keepsMember_iff f owner m).1 h))

/-- the exported types are exported, in the order in which they were -/
theorem exported_sublist : (s.exported f).Sublist (s.exported g) := by
  refine List.monotone_filter_right _ fun entry hentry => ?_
  rw [Bool.and_eq_true] at hentry ⊢
  exact ⟨hentry.1, isExported_widened hfg hentry.2⟩

/-- so are the members that are kept -/
theorem kept_sublist (entry : TypeEntry) :
    (entry.members.filter fun m => s.keepsMember f entry.facts.kind m.facts).Sublist
      (entry.members.filter fun m => s.keepsMember g entry.facts.kind m.facts) :=
  List.monotone_filter_right _ fun _ hm => keepsMember_widened hfg hm

/-- where more is listed without a fault, less is -/
theorem exists_extract_of_widened {l' : Listing} (hl' : s.extract g = .ok l') : ∃ l, s.extract f = .ok l := by
  have hknown : ∀ h ∈ s.moduleTypes, ∃ entry, s.entry? h = some entry := fun h hh => s.entry?_isSome_of_mem_moduleTypes hh
  obtain ⟨ts', houtcome, -⟩ := exists_of_extract g hl'
  obtain ⟨known', hrun'⟩ := Extracting.exists_of_outcome houtcome
  obtain ⟨hnamed, hnodup, -⟩ := (s.succeeds_describeTypes g [] hknown []).1 ⟨_, hrun'⟩
  rw [exportedAmong_moduleTypes] at hnamed hnodup
  obtain ⟨result, hrun⟩ := (s.succeeds_describeTypes f [] hknown []).2 (by
    rw [exportedAmong_moduleTypes]
    refine ⟨fun entry hentry => ?_, hnodup.sublist ((exported_sublist hfg).map _), fun _ _ => List.not_mem_nil⟩
    obtain ⟨hsegments, hgenerics, hmembers⟩ := hnamed entry ((exported_sublist hfg).subset hentry)
    exact ⟨hsegments, hgenerics, fun m hm hkept => hmembers m hm (keeps_widened hfg hkept)⟩)
  exact ⟨_, by rw [extract_eq, Extracting.outcome, hrun]; rfl⟩

end

/-! ## The two listings -/

/-- the types of two listings of a module that have one name are one type of the module -/
theorem covers_of_name_eq {l l' : Listing} (hl : s.extract f = .ok l) (hl' : s.extract g = .ok l') (hfg : f.Within g)
    {t t' : TypeDescriptor} (ht : t ∈ l.types) (ht' : t' ∈ l'.types) (hname : t'.name = t.name) :
    ∃ entry, s.Covers f t entry ∧ s.Covers g t' entry := by
  obtain ⟨entry, hentry, hcovers⟩ :=
    (anyOrder_of_extract f (fun _ _ hentry => covers_describeType f hentry) hl).exists_mem ht
  obtain ⟨entry', hentry', hcovers'⟩ :=
    (anyOrder_of_extract g (fun _ _ hentry => covers_describeType g hentry) hl').exists_mem ht'
  obtain ⟨hnodup, hperm, -⟩ := s.extract_spec g hl'
  have hsame : entry' = entry := by
    refine List.inj_on_of_nodup_map (hperm.nodup_iff.1 hnodup) hentry' ((exported_sublist hfg).subset hentry) ?_
    rw [← hcovers.name, ← hcovers'.name, hname]
  exact ⟨entry, hcovers, hsame ▸ hcovers'⟩

/-- drawings are lists by way of a hidden interface, and have a hidden overload -/
def drawings : FactSet :=
  let drawing := bareType .classType .pub (.topLevel "" "Drawing") [interfaceOf "IHidden" (.topLevel "" "Circle")]
  ⟨"Shapes", [
    bareType .interfaceType .internal (interfaceOf "IHidden" typeT) [interfaceOf "IList" typeT],
    { drawing with members := [methodFacts .internal (.topLevel "" "Circle"), methodFacts .pub (.topLevel "" "Shape")] },
    bareType .interfaceType .pub (interfaceOf "IList" typeT) []]⟩

/-- the drawings as listed, the interfaces and methods being some of theirs -/
def listedDrawing (interfaces : List String) (members : List MemberDescriptor) : TypeDescriptor :=
  { TypeDescriptor.ofClass "Drawing" with
    interfaces := interfaces
    members := members }

/-- the overloads as listed -/
def drawingOverload (visibility : Visibility) (type : String) : MemberDescriptor :=
  { MemberDescriptor.plain .method "M" with
    parameters := [.plain "x" type]
    visibility := some visibility }

/-- all that a friend sees of drawings -/
def friendListing : Listing :=
  ⟨"Shapes", [
    { TypeDescriptor.plain "IHidden<T>" .internal .interfaceType with interfaces := ["IList<T>"] },
    listedDrawing ["IHidden<Circle>", "IList<Circle>"] [drawingOverload .internal "Circle", drawingOverload .pub "Shape"],
    TypeDescriptor.ofInterface "IList<T>"]⟩

end FactSet

end ApiSurface
