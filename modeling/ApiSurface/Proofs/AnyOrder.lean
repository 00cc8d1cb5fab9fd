/-
Lists that match in some order: one is permuted, then compared entry by entry.

`AnyOrder.symm`, `AnyOrder.perm_left`, `AnyOrder.perm_right`: neither order matters.
`AnyOrder.perm_map`: what matching entries have in common is the same up to order.
-/
import Mathlib.Data.List.Forall2
import Mathlib.Data.List.Perm.Basic

namespace ApiSurface

variable {α β γ δ : Type} {R : α → β → Prop}

/-- what related entries have in common makes one list -/
theorem map_eq_of_forall₂ {f : α → γ} {g : β → γ} {xs : List α} {ys : List β} (hfg : ∀ x y, R x y → g y = f x)
    (h : List.Forall₂ R xs ys) : ys.map g = xs.map f := by
  induction h with
  | nil => rfl
  | cons hxy _ ih => rw [List.map_cons, List.map_cons, hfg _ _ hxy, ih]

/-- the entries of one list are related to those of the other, in some order -/
def AnyOrder (R : α → β → Prop) (xs : List α) (ys : List β) : Prop := ∃ zs, xs.Perm zs ∧ List.Forall₂ R zs ys

namespace AnyOrder

variable {xs xs' : List α} {ys ys' : List β}

theorem imp {Q : α → β → Prop} (hRQ : ∀ x ∈ xs, ∀ y ∈ ys, R x y → Q x y) (h : AnyOrder R xs ys) : AnyOrder Q xs ys := by
  obtain ⟨zs, hperm, halike⟩ := h
  refine ⟨zs, hperm, ?_⟩
  rw [List.forall₂_iff_get] at halike ⊢
  refine ⟨halike.1, fun index hindex hindex' => ?_⟩
  exact hRQ _ (hperm.mem_iff.2 (List.get_mem _ _)) _ (List.get_mem _ _) (halike.2 index hindex hindex')

/-- the other list may be permuted instead -/
theorem permuted_right (h : AnyOrder R xs ys) : ∃ zs, List.Forall₂ R xs zs ∧ zs.Perm ys := by
  obtain ⟨zs, hperm, halike⟩ := h
  exact List.perm_comp_forall₂ hperm halike

theorem symm (h : AnyOrder R xs ys) : AnyOrder (fun y x => R x y) ys xs := by
  obtain ⟨zs, halike, hperm⟩ := h.permuted_right
  exact ⟨zs, hperm.symm, halike.flip⟩

theorem perm_left (hperm : xs'.Perm xs) (h : AnyOrder R xs ys) : AnyOrder R xs' ys := by
  obtain ⟨zs, hzs, halike⟩ := h
  exact ⟨zs, hperm.trans hzs, halike⟩

theorem perm_right (h : AnyOrder R xs ys) (hperm : ys.Perm ys') : AnyOrder R xs ys' := by
  obtain ⟨zs, hzs, halike⟩ := h
  exact (AnyOrder.symm ⟨zs, hzs, halike⟩ |>.perm_left hperm.symm).symm

theorem exists_mem (h : AnyOrder R xs ys) {x : α} (hx : x ∈ xs) : ∃ y ∈ ys, R x y := by
  obtain ⟨zs, halike, hperm⟩ := h.permuted_right
  obtain ⟨index, hindex, rfl⟩ := List.getElem_of_mem hx
  have hindex' : index < zs.length := halike.length_eq ▸ hindex
  exact ⟨zs[index], hperm.mem_iff.1 (List.getElem_mem hindex'), halike.get hindex hindex'⟩

theorem perm_map {f : α → γ} {g : β → γ} (hfg : ∀ x ∈ xs, ∀ y ∈ ys, R x y → f x = g y) (h : AnyOrder R xs ys) :
    (xs.map f).Perm (ys.map g) := by
  obtain ⟨zs, hperm, halike⟩ := h.imp hfg
  have hmap : zs.map f = ys.map g := by
    rw [← List.forall₂_eq_eq_eq, List.forall₂_map_left_iff, List.forall₂_map_right_iff]
    exact halike
  exact hmap ▸ hperm.map f

theorem filter {p : α → Bool} {q : β → Bool} (hpq : ∀ x y, R x y → p x = q y) (h : AnyOrder R xs ys) :
    AnyOrder R (xs.filter p) (ys.filter q) := by
  obtain ⟨zs, hperm, halike⟩ := h
  refine ⟨zs.filter p, hperm.filter p, ?_⟩
  exact List.rel_filter (fun x y hxy => Bool.eq_iff_iff.1 (hpq x y hxy)) halike

end AnyOrder

/-- lists match when their images do -/
theorem AnyOrder.of_map {xs : List γ} {ys : List δ} {f : γ → α} {g : δ → β} (h : AnyOrder R (xs.map f) (ys.map g)) :
    AnyOrder (fun x y => R (f x) (g y)) xs ys := by
  obtain ⟨zs, halike, hperm⟩ := h.permuted_right
  have himages : List.Forall₂ (fun b y => b = g y) (ys.map g) ys :=
    List.forall₂_map_left_iff.2 (List.forall₂_same.2 fun _ _ => rfl)
  obtain ⟨ws, hws, hperm'⟩ := List.perm_comp_forall₂ hperm himages
  have hzs : zs = ws.map g := by
    rw [← List.forall₂_eq_eq_eq, List.forall₂_map_right_iff]
    exact hws
  rw [hzs, List.forall₂_map_left_iff, List.forall₂_map_right_iff] at halike
  exact (AnyOrder.symm ⟨ws, hperm'.symm, halike.flip⟩)

theorem anyOrder_eq_iff {xs ys : List α} : AnyOrder (fun x y => x = y) xs ys ↔ xs.Perm ys := by
  constructor
  · rintro ⟨zs, hperm, halike⟩
    rw [List.forall₂_eq_eq_eq] at halike
    exact halike ▸ hperm
  · exact fun hperm => ⟨ys, hperm, List.forall₂_same.2 fun _ _ => rfl⟩

end ApiSurface
