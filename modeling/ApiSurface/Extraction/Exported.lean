/-
What of a module is exported: types and members of the visibilities that a filter keeps, and of the nested types only
those whose declaring types, as far as they are known, are exported too.
-/
import ApiSurface.Facts.Set

namespace ApiSurface

/-- the visibilities that belong to the surface -/
structure VisibilityFilter where
  allowed : List Visibility
deriving DecidableEq, Repr

namespace VisibilityFilter

/-- exactly the given visibilities -/
def only (allowed : List Visibility) : VisibilityFilter := ⟨allowed⟩

/-- what code outside the module can reach -/
def standard : VisibilityFilter := only [.pub, .prot, .protInternal]

/-- what the module's friends can reach as well -/
def includingInternal : VisibilityFilter := only (standard.allowed ++ [.internal])

def keeps (f : VisibilityFilter) (v : Visibility) : Bool := f.allowed.contains v

end VisibilityFilter

/-! ## Declaring types -/

/-- the length of the key by which the declaring type of a reference is looked up -/
def TypeRef.declaringLength (r : TypeRef) : Nat :=
  match r.declaring? with
  | none => 0
  | some declaring =>
    match declaring.withoutByRef.definitionKey? with
    | none => 0
    | some key => key.length + 1

/-- the declaring type of a nested type has a shorter key -/
theorem TypeRef.declaringLength_le {r : TypeRef} {key : String} (h : r.definitionKey? = some key) :
    r.declaringLength ≤ key.length := by
  match r with
  | .named _ _ none _ => simp [declaringLength, declaring?]
  | .named ns name (some declaring) arguments =>
    simp only [definitionKey?, Option.map_eq_some_iff] at h
    obtain ⟨inner, hinner, rfl⟩ := h
    have : declaring.withoutByRef = declaring := by
      cases declaring <;> simp_all [definitionKey?, withoutByRef]
    simp only [declaringLength, declaring?, this, hinner, String.length_append]
    have : "+".length = 1 := rfl
    omega
  | .parameter _ _ _ => simp [definitionKey?] at h
  | .array _ _ => simp [definitionKey?] at h
  | .byRef _ => simp [definitionKey?] at h
  | .pointer _ => simp [definitionKey?] at h

namespace FactSet

/-- a definition that is found has the key it was looked up by -/
theorem definitionKey_of_definition? {s : FactSet} {r : TypeRef} {facts : TypeFacts}
    (h : s.definition? r = some facts) :
    ∃ key, r.withoutByRef.definitionKey? = some key ∧ facts.reference.definitionKey? = some key := by
  unfold definition? resolve at h
  cases hk : r.withoutByRef.definitionKey? with
  | none => simp [hk] at h
  | some key =>
    refine ⟨key, rfl, ?_⟩
    simp only [hk, Option.bind_some, find?, Option.bind_map] at h
    obtain ⟨i, hi, h⟩ := Option.bind_eq_some_iff.1 h
    obtain ⟨hlt, hp, -⟩ := List.findIdx?_eq_some_iff_getElem.1 hi
    simp only [Function.comp_apply, facts?, entry?, List.getElem?_eq_getElem hlt, Option.map_some,
      Option.some.injEq] at h
    rw [← h]
    simpa using hp

/-- the type and every declaring type that is known pass the filter -/
def isExported (s : FactSet) (f : VisibilityFilter) (facts : TypeFacts) : Bool :=
  f.keeps facts.visibility &&
    match _hd : facts.reference.declaring? with
    | none => true
    | some declaring =>
      match _h : s.definition? declaring with
      | none => true
      | some outer => isExported s f outer
termination_by facts.reference.declaringLength
decreasing_by
  obtain ⟨key, hkey, houter⟩ := definitionKey_of_definition? _h
  have := TypeRef.declaringLength_le houter
  simp only [TypeRef.declaringLength, _hd, hkey]
  unfold TypeRef.declaringLength at this
  omega

/-- a reference to a type that is exported, or that is not known -/
def isVisible (s : FactSet) (f : VisibilityFilter) (r : TypeRef) : Bool :=
  match s.definition? r with
  | none => true
  | some facts => s.isExported f facts

end FactSet

end ApiSurface
