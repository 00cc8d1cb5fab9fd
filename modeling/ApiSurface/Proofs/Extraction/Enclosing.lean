/-
Which of the types around a listed type are known to be visible.

A nested type is listed when it is visible and so is the type that declares it, and so on outward. The check goes from one
definition to the next, so it ends at a declaring type that is not known, whatever stands further out.

`passes_of_isExported`: every declaring type that the check reaches passes the filter.
`extract_exposed_iff`: all of them do when those do that it does not reach.
`orphan_listed`: these need not.
-/
import ApiSurface.Proofs.Extraction.Walk

namespace ApiSurface

/-! ## Declaring types -/

/-- the types that declare a nested type, outward -/
def TypeRef.enclosing : TypeRef → List TypeRef
  | .named _ _ (some declaring) _ => declaring :: declaring.enclosing
  | _ => []

namespace FactSet

variable (s : FactSet) (f : VisibilityFilter)

/-- the definition of what declares a nested type -/
def declarer? (r : TypeRef) : Option TypeHandle := r.declaring?.bind s.resolve

/-- the declaring types that stand further out than one that is not known, or that is declared by another type in its
definition -/
def overlooked : TypeRef → List TypeRef
  | .named _ _ (some declaring) _ =>
    match s.definition? declaring with
    | none => declaring.enclosing
    | some outer =>
      if s.declarer? outer.reference = s.declarer? declaring then overlooked declaring else declaring.enclosing
  | _ => []

/-- the filter keeps the type, if it is known -/
def Passes (r : TypeRef) : Prop := ∀ facts ∈ s.definition? r, f.keeps facts.visibility = true

instance (r : TypeRef) : Decidable (s.Passes f r) :=
  inferInstanceAs (Decidable (∀ facts ∈ s.definition? r, f.keeps facts.visibility = true))

variable {s f}

theorem overlooked_subset (r : TypeRef) : s.overlooked r ⊆ r.enclosing := by
  induction r using TypeRef.enclosing.induct with
  | case1 ns name declaring arguments ih =>
    rw [overlooked, TypeRef.enclosing]
    split
    · exact List.subset_cons_self _ _
    · split
      · exact List.subset_cons_of_subset _ ih
      · exact List.subset_cons_self _ _
  | case2 r hnested =>
    have hnone : s.overlooked r = [] := by
      unfold overlooked
      split
      · exact absurd rfl (hnested _ _ _ _)
      · rfl
    rw [hnone]
    exact List.nil_subset _

/-- **What the check reaches.** If a type that has the declaring type of a reference is exported, every type around the
reference that is not overlooked passes. -/
theorem passes_of_isExported {facts : TypeFacts} (h : s.isExported f facts = true) {r : TypeRef}
    (hr : s.declarer? facts.reference = s.declarer? r) {d : TypeRef} (hd : d ∈ r.enclosing) (hseen : d ∉ s.overlooked r) :
    s.Passes f d := by
  induction r using TypeRef.enclosing.induct generalizing facts with
  | case1 ns name declaring arguments ih =>
    -- the check asks for the definition of what declares `facts`, which is that of what declares the reference
    have hdefinition : facts.reference.declaring?.bind s.definition? = s.definition? declaring := by
      have hbind := congrArg (Option.bind · s.facts?) hr
      simp only [declarer?, Option.bind_assoc] at hbind
      exact hbind
    rw [isExported_eq, hdefinition, Bool.and_eq_true] at h
    rw [overlooked] at hseen
    cases houter : s.definition? declaring with
    | none =>
      rw [houter] at hseen
      rcases List.mem_cons.1 hd with rfl | hd
      · intro outer hknown
        rw [houter] at hknown
        cases hknown
      · exact absurd hd hseen
    | some outer =>
      rw [houter] at h hseen
      have hexported : s.isExported f outer = true := h.2
      rcases List.mem_cons.1 hd with rfl | hd
      · intro outer' hknown
        obtain rfl := Option.some.inj (houter.symm.trans hknown)
        rw [isExported_eq, Bool.and_eq_true] at hexported
        exact hexported.1
      · dsimp only at hseen
        split at hseen
        · next hsame => exact ih hexported hsame hd hseen
        · exact absurd hd hseen
  | case2 r hnested =>
    unfold TypeRef.enclosing at hd
    split at hd
    · exact absurd rfl (hnested _ _ _ _)
    · cases hd

/-! ## Listings -/

theorem ensures_describeType_visibility (h : TypeHandle) (entry : TypeEntry) (members : List MemberHandle) :
    Extracting.Ensures (s.describeType f h entry members) fun t =>
      t.name = entry.facts.reference.canonicalName ∧ t.visibility = entry.facts.visibility := by
  unfold describeType
  refine (Extracting.ensures_true _).bind fun _ _ => ?_
  refine (Extracting.ensures_true _).bind fun interfaces _ => ?_
  refine (Extracting.ensures_true _).bind fun generics _ => ?_
  refine (Extracting.ensures_true _).bind fun described _ => ?_
  exact Extracting.ensures_pure ⟨rfl, rfl⟩

/-- **Listed types are visible, and those around them as far as the check reaches.** The listing holds the exported types, each
with a visibility that the filter keeps. All known types around one of them pass the filter exactly if those do that the check
overlooks: that stand further out than a type that is not known, or that is declared elsewhere. -/
theorem extract_exposed_iff (s : FactSet) (f : VisibilityFilter) {l : Listing} (hl : s.extract f = .ok l) :
    AnyOrder (fun t entry => t.name = entry.facts.reference.canonicalName ∧ t.visibility = entry.facts.visibility ∧
      f.keeps t.visibility = true ∧
      ((∀ d ∈ entry.facts.reference.enclosing, s.Passes f d) ↔ ∀ d ∈ s.overlooked entry.facts.reference, s.Passes f d))
      l.types (s.exported f) := by
  refine (anyOrder_of_extract f (fun h entry _ => ensures_describeType_visibility h entry _) hl).imp ?_
  rintro t - entry hentry ⟨hname, hvisibility⟩
  have hexported : s.isExported f entry.facts = true := (Bool.and_eq_true_iff.1 (List.mem_filter.1 hentry).2).2
  refine ⟨hname, hvisibility, ?_, fun hall d hd => hall d (overlooked_subset _ hd), fun hall d hd => ?_⟩
  · rw [isExported_eq, Bool.and_eq_true] at hexported
    exact hvisibility ▸ hexported.1
  · by_cases hoverlooked : d ∈ s.overlooked entry.facts.reference
    · exact hall d hoverlooked
    · exact passes_of_isExported hexported rfl hd hoverlooked

/-! ## Types inside a hidden one -/

def outerType : TypeRef := .topLevel "" "Outer"

def middleType : TypeRef := outerType.nestedIn "Middle"

def innerType : TypeRef := middleType.nestedIn "Inner"

/-- a class, a public one two levels inside it, and the one between them if it is known -/
def nestedClasses (outer : Visibility) (middle : Option Visibility) : FactSet :=
  ⟨"Lib", [bareType .classType outer outerType []] ++
    (middle.toList.map fun v => bareType .classType v middleType []) ++ [bareType .classType .pub innerType []]⟩

/-- where all three are known, no one is overlooked -/
theorem extract_exposed_iff_known :
    (nestedClasses .pub (some .pub)).extract .standard = .ok ⟨"Lib",
        [.ofClass "Outer", .ofClass "Outer+Middle", .ofClass "Outer+Middle+Inner"]⟩ ∧
      innerType.enclosing = [middleType, outerType] ∧
      ∀ d ∈ innerType.enclosing, (nestedClasses .pub (some .pub)).Passes .standard d := by
  have hexportedOuter : (nestedClasses .pub (some .pub)).isExported .standard (bareType .classType .pub outerType []).facts =
      true := by
    rw [isExported_eq]
    rfl
  have hexportedMiddle : (nestedClasses .pub (some .pub)).isExported .standard (bareType .classType .pub middleType []).facts =
      true := by
    rw [isExported_eq]
    exact hexportedOuter
  have hexportedInner : (nestedClasses .pub (some .pub)).isExported .standard (bareType .classType .pub innerType []).facts =
      true := by
    rw [isExported_eq]
    exact hexportedMiddle
  have houter : entry? (nestedClasses .pub (some .pub)) ⟨0⟩ = some (bareType .classType .pub outerType []) := rfl
  have hmiddle : entry? (nestedClasses .pub (some .pub)) ⟨1⟩ = some (bareType .classType .pub middleType []) := rfl
  have hinner : entry? (nestedClasses .pub (some .pub)) ⟨2⟩ = some (bareType .classType .pub innerType []) := rfl
  have hmodule : (nestedClasses .pub (some .pub)).moduleTypes = [⟨0⟩, ⟨1⟩, ⟨2⟩] := rfl
  have hextract : (nestedClasses .pub (some .pub)).extract .standard = .ok ⟨"Lib",
      [.ofClass "Outer", .ofClass "Outer+Middle", .ofClass "Outer+Middle+Inner"]⟩ := by
    refine extract_of_outcome _ ?_ (by decide) (by decide)
    simp only [hmodule, describeTypes, houter, hmiddle, hinner, hexportedOuter, hexportedMiddle, hexportedInner, if_true]
    rfl
  refine ⟨hextract, rfl, ?_⟩
  have hlisted : bareType .classType .pub innerType [] ∈ (nestedClasses .pub (some .pub)).exported .standard :=
    List.mem_filter.2 ⟨List.mem_of_getElem? hinner, hexportedInner⟩
  obtain ⟨t, -, -, -, -, hexposed⟩ := (extract_exposed_iff _ _ hextract).symm.exists_mem hlisted
  exact hexposed.2 (by decide)

/-- **A class inside a hidden one may be listed**: the class between them is not known, so the check ends there. -/
theorem orphan_listed :
    (nestedClasses .internal none).extract .standard = .ok ⟨"Lib", [.ofClass "Outer+Middle+Inner"]⟩ ∧
      outerType ∈ innerType.enclosing ∧ ¬(nestedClasses .internal none).Passes .standard outerType := by
  have hhidden : (nestedClasses .internal none).isExported .standard (bareType .classType .internal outerType []).facts =
      false := by
    rw [isExported_eq]
    rfl
  have hexported : (nestedClasses .internal none).isExported .standard (bareType .classType .pub innerType []).facts =
      true := by
    rw [isExported_eq]
    rfl
  have houter : entry? (nestedClasses .internal none) ⟨0⟩ = some (bareType .classType .internal outerType []) := rfl
  have hinner : entry? (nestedClasses .internal none) ⟨1⟩ = some (bareType .classType .pub innerType []) := rfl
  have hmodule : (nestedClasses .internal none).moduleTypes = [⟨0⟩, ⟨1⟩] := rfl
  refine ⟨extract_of_outcome _ ?_ (by decide) (by decide), by decide, by decide⟩
  simp only [hmodule, describeTypes, houter, hinner, hhidden, hexported, if_true]
  rfl

end FactSet

end ApiSurface
