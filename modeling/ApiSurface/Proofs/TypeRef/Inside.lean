/-
What references are made of, the types that declare them included.

`depth_lt_of_inside`: what stands in a reference is less deep.
`inside_induction`: so what holds of a reference as soon as it holds of all inside holds of every reference.
-/
import ApiSurface.TypeRef.Basic

namespace ApiSurface.TypeRef

/-- the references that stand in a reference -/
def inside : TypeRef → List TypeRef
  | .named _ _ declaring own => declaring.toList ++ own
  | .parameter _ _ _ => []
  | .array element _ => [element]
  | .byRef element => [element]
  | .pointer element => [element]

/-! ## Depth -/

mutual

/-- how many references stand in each other -/
def depth : TypeRef → Nat
  | .named _ _ none own => depthOf own + 1
  | .named _ _ (some declaring) own => max (depth declaring) (depthOf own) + 1
  | .parameter _ _ _ => 1
  | .array element _ => depth element + 1
  | .byRef element => depth element + 1
  | .pointer element => depth element + 1

def depthOf : List TypeRef → Nat
  | [] => 0
  | r :: rest => max (depth r) (depthOf rest)

end

theorem depth_le_depthOf {r : TypeRef} {rs : List TypeRef} (h : r ∈ rs) : r.depth ≤ depthOf rs := by
  induction rs with
  | nil => cases h
  | cons first rest ih =>
    rw [depthOf]
    rcases List.mem_cons.1 h with rfl | h
    · exact Nat.le_max_left _ _
    · exact Nat.le_trans (ih h) (Nat.le_max_right _ _)

theorem depth_lt_of_inside {q r : TypeRef} (h : q ∈ r.inside) : q.depth < r.depth := by
  cases r with
  | named ns name declaring own =>
    cases declaring with
    | none => exact Nat.lt_succ_of_le (depth_le_depthOf h)
    | some d =>
      rcases List.mem_cons.1 h with rfl | h
      · exact Nat.lt_succ_of_le (Nat.le_max_left _ _)
      · exact Nat.lt_succ_of_le (Nat.le_trans (depth_le_depthOf h) (Nat.le_max_right _ _))
  | parameter => cases h
  | array element => exact List.mem_singleton.1 h ▸ Nat.lt_succ_self _
  | byRef element => exact List.mem_singleton.1 h ▸ Nat.lt_succ_self _
  | pointer element => exact List.mem_singleton.1 h ▸ Nat.lt_succ_self _

theorem depth_le_succ {r : TypeRef} {n : Nat} (h : ∀ q ∈ r.inside, q.depth ≤ n) : r.depth ≤ n + 1 := by
  have hall : ∀ rs : List TypeRef, (∀ q ∈ rs, q.depth ≤ n) → depthOf rs ≤ n := by
    intro rs hrs
    induction rs with
    | nil => exact Nat.zero_le n
    | cons first rest ih =>
      obtain ⟨hfirst, hrest⟩ := List.forall_mem_cons.1 hrs
      exact Nat.max_le.2 ⟨hfirst, ih hrest⟩
  cases r with
  | named ns name declaring own =>
    cases declaring with
    | none => exact Nat.succ_le_succ (hall own h)
    | some d =>
      obtain ⟨hd, hown⟩ := List.forall_mem_cons.1 h
      exact Nat.succ_le_succ (Nat.max_le.2 ⟨hd, hall own hown⟩)
  | parameter => exact Nat.succ_le_succ (Nat.zero_le n)
  | array element => exact Nat.succ_le_succ (h element List.mem_cons_self)
  | byRef element => exact Nat.succ_le_succ (h element List.mem_cons_self)
  | pointer element => exact Nat.succ_le_succ (h element List.mem_cons_self)

/-- what holds of a reference as soon as it holds of all that stand in it, holds of all references -/
theorem inside_induction {P : TypeRef → Prop} (step : ∀ r, (∀ q ∈ r.inside, P q) → P r) (r : TypeRef) : P r := by
  induction hdepth : r.depth using Nat.strongRecOn generalizing r with
  | _ n ih => exact step r fun q hq => ih q.depth (hdepth ▸ depth_lt_of_inside hq) q rfl

end ApiSurface.TypeRef
