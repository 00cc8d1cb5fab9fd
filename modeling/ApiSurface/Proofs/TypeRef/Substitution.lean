/-
Putting arguments in the place of type parameters.

`substitute_substitute`: doing it twice is doing it once, with arguments in which it was done, provided the first arguments
reach as far as the positions of the reference.
`definitionKey?_substitute`, `withoutByRef_substitute`: a reference that is no type parameter itself keeps its definition.
-/
import ApiSurface.Proofs.TypeRef.WellFormed

namespace ApiSurface.TypeRef

theorem substituteAll_eq_map (arguments rs : List TypeRef) :
    substituteAll arguments rs = rs.map (substitute arguments) := by
  induction rs with
  | nil => rfl
  | cons r rest ih => rw [substituteAll, ih, List.map_cons]

/-- without arguments nothing is replaced -/
theorem substitute_nil (r : TypeRef) : r.substitute [] = r := by
  induction r using inductionOn with
  | named ns name declaring own ih =>
    rw [substitute, substituteAll_eq_map, List.map_congr_left ih, List.map_id']
  | parameter name position ofMethod => cases ofMethod <;> rfl
  | array element rank ih => rw [substitute, ih]
  | byRef element ih => rw [substitute, ih]
  | pointer element ih => rw [substitute, ih]

/-! ## Positions -/

mutual

/-- the positions of the type parameters that substitution replaces; what declares a type stays as it is -/
def positions : TypeRef → List Nat
  | .parameter _ position false => [position.toNat]
  | .parameter _ _ true => []
  | .named _ _ _ own => positionsAll own
  | .array element _ => positions element
  | .byRef element => positions element
  | .pointer element => positions element

def positionsAll : List TypeRef → List Nat
  | [] => []
  | r :: rest => positions r ++ positionsAll rest

end

theorem mem_positionsAll {rs : List TypeRef} {p : Nat} : p ∈ positionsAll rs ↔ ∃ r ∈ rs, p ∈ r.positions := by
  induction rs with
  | nil => simp [positionsAll]
  | cons r rest ih => simp [positionsAll, ih]

/-- **Substitution twice.** -/
theorem substitute_substitute (first second : List TypeRef) (r : TypeRef) (h : ∀ p ∈ r.positions, p < first.length) :
    (r.substitute first).substitute second = r.substitute (first.map (substitute second)) := by
  induction r using inductionOn with
  | named ns name declaring own ih =>
    simp only [substitute, substituteAll_eq_map, List.map_map, TypeRef.named.injEq, true_and]
    apply List.map_congr_left
    intro r hr
    exact ih r hr fun p hp => h p (mem_positionsAll.2 ⟨r, hr, hp⟩)
  | parameter name position ofMethod =>
    cases ofMethod with
    | true => rfl
    | false =>
      have hposition : position.toNat < first.length := h _ List.mem_cons_self
      simp [substitute, hposition]
  | array element rank ih => simp only [substitute, ih h]
  | byRef element ih => simp only [substitute, ih h]
  | pointer element ih => simp only [substitute, ih h]

/-- where the arguments reach far enough, all positions left are those of arguments -/
theorem mem_positions_substitute {arguments : List TypeRef} {r : TypeRef} {p : Nat}
    (h : ∀ q ∈ r.positions, q < arguments.length) (hp : p ∈ (r.substitute arguments).positions) :
    ∃ a ∈ arguments, p ∈ a.positions := by
  induction r using inductionOn with
  | named ns name declaring own ih =>
    rw [substitute, substituteAll_eq_map] at hp
    obtain ⟨r', hr', hp⟩ := mem_positionsAll.1 hp
    obtain ⟨r, hr, rfl⟩ := List.mem_map.1 hr'
    exact ih r hr (fun q hq => h q (mem_positionsAll.2 ⟨r, hr, hq⟩)) hp
  | parameter name position ofMethod =>
    cases ofMethod with
    | true => simp [substitute, positions] at hp
    | false =>
      have hposition : position.toNat < arguments.length := h _ List.mem_cons_self
      simp only [substitute, List.getElem?_eq_getElem hposition, Option.getD_some] at hp
      exact ⟨_, List.getElem_mem hposition, hp⟩
  | array element rank ih => exact ih h hp
  | byRef element ih => exact ih h hp
  | pointer element ih => exact ih h hp

/-- the positions in the arguments of a reference, managed or not, are positions of it -/
theorem mem_positions_of_argument {r a : TypeRef} {p : Nat} (ha : a ∈ r.withoutByRef.arguments) (hp : p ∈ a.positions) :
    p ∈ r.positions := by
  induction r using inductionOn with
  | named ns name declaring own => exact mem_positionsAll.2 ⟨a, ha, hp⟩
  | byRef element ih => exact ih ha
  | parameter => cases ha
  | array => cases ha
  | pointer => cases ha

/-! ## Definitions -/

/-- the reference is a type parameter, or a managed reference to one: a substitution may put any type in its place -/
def isPlaceholder : TypeRef → Bool
  | .parameter _ _ false => true
  | .byRef element => element.isPlaceholder
  | _ => false

variable {r : TypeRef} (arguments : List TypeRef)

theorem isPlaceholder_substitute (h : r.isPlaceholder = false) : (r.substitute arguments).isPlaceholder = false := by
  induction r using inductionOn with
  | parameter name position ofMethod =>
    cases ofMethod with
    | true => rfl
    | false => cases h
  | byRef element ih => exact ih h
  | named => rfl
  | array => rfl
  | pointer => rfl

theorem definitionKey?_substitute (h : r.isPlaceholder = false) :
    (r.substitute arguments).definitionKey? = r.definitionKey? := by
  match r with
  | .named ns name none own => rfl
  | .named ns name (some declaring) own => rfl
  | .parameter name position true => rfl
  | .parameter name position false => cases h
  | .array element rank => rfl
  | .byRef element => rfl
  | .pointer element => rfl

theorem withoutByRef_substitute (h : r.isPlaceholder = false) :
    (r.substitute arguments).withoutByRef = r.withoutByRef.substitute arguments := by
  induction r using inductionOn with
  | parameter name position ofMethod =>
    cases ofMethod with
    | true => rfl
    | false => cases h
  | byRef element ih => exact ih h
  | named => rfl
  | array => rfl
  | pointer => rfl

theorem isPlaceholder_withoutByRef (h : r.isPlaceholder = false) : r.withoutByRef.isPlaceholder = false := by
  induction r using inductionOn with
  | parameter name position ofMethod => exact h
  | byRef element ih => exact ih h
  | named => rfl
  | array => rfl
  | pointer => rfl

theorem arguments_substitute (h : r.isPlaceholder = false) :
    (r.substitute arguments).withoutByRef.arguments = r.withoutByRef.arguments.map (substitute arguments) := by
  have hbare := isPlaceholder_withoutByRef h
  rw [withoutByRef_substitute arguments h]
  generalize r.withoutByRef = bare at hbare ⊢
  match bare with
  | .named ns name declaring own => exact substituteAll_eq_map arguments own
  | .parameter name position true => rfl
  | .parameter name position false => cases hbare
  | .array element rank => rfl
  | .byRef element => rfl
  | .pointer element => rfl

end ApiSurface.TypeRef
