/-
What an extraction guarantees of its result when it has one, whatever interface lists it finds and leaves.

`Ensures.bind` takes a computation apart, `Ensures.mapM` one that takes a step for each entry of a list.
`ensures_requireName` is what is known of a name that is not refused.
-/
import ApiSurface.Extraction.Basic
import Mathlib.Data.List.Forall2

namespace ApiSurface.Extracting

variable {α β : Type}

/-- the results of a computation have a property -/
def Ensures (x : Extracting α) (p : α → Prop) : Prop :=
  ∀ known a known', x.run known = .ok (a, known') → p a

theorem ensures_true (x : Extracting α) : Ensures x fun _ => True := fun _ _ _ _ => trivial

theorem ensures_pure {p : α → Prop} {a : α} (h : p a) : Ensures (pure a) p := by
  intro known b known' hrun
  cases hrun
  exact h

theorem ensures_throw {p : α → Prop} (fault : ExtractionFault) : Ensures (throw fault) p := by
  intro known a known' hrun
  cases hrun

/-- two computations one after the other have a result if each has one -/
theorem exists_of_run_bind {x : Extracting α} {f : α → Extracting β} {known : Closures} {result : β × Closures}
    (hrun : (x >>= f).run known = .ok result) :
    ∃ between, x.run known = .ok between ∧ (f between.1).run between.2 = .ok result := by
  rw [StateT.run_bind] at hrun
  cases hr : x.run known with
  | error fault =>
    rw [hr] at hrun
    cases hrun
  | ok between =>
    rw [hr] at hrun
    exact ⟨between, rfl, hrun⟩

/-- what the first computation guarantees may be used for the second -/
theorem Ensures.bind {x : Extracting α} {f : α → Extracting β} {q : α → Prop} {p : β → Prop} (hx : Ensures x q)
    (hf : ∀ a, q a → Ensures (f a) p) : Ensures (x >>= f) p := by
  intro known b known' hrun
  obtain ⟨⟨a, between⟩, hfirst, hsecond⟩ := exists_of_run_bind hrun
  exact hf a (hx known a between hfirst) between b known' hsecond

theorem Ensures.mapM {f : α → Extracting β} {R : α → β → Prop} {xs : List α} (h : ∀ x ∈ xs, Ensures (f x) (R x)) :
    Ensures (xs.mapM f) (List.Forall₂ R xs) := by
  induction xs with
  | nil => exact ensures_pure .nil
  | cons x rest ih =>
    rw [List.mapM_cons]
    refine (h x List.mem_cons_self).bind fun b hb => ?_
    refine (ih fun y hy => h y (List.mem_cons_of_mem _ hy)).bind fun bs hbs => ?_
    exact ensures_pure (.cons hb hbs)

/-- a name that is not refused is no invented one -/
theorem ensures_requireName (construct : Construct) (name context : String) :
    Ensures (liftM (requireName construct name context)) fun _ => TypeRef.isSynthesizedName name = false := by
  intro known a known' hrun
  unfold requireName at hrun
  split at hrun
  · cases hrun
  · next h => exact Bool.eq_false_iff.2 h

end ApiSurface.Extracting
