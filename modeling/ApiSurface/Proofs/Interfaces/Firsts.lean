/-
Lists with the same entries in the same order of first places. What comes a second time makes no difference, so lists may
be exchanged for such a list inside of lists that are put together, chosen from or mapped.

`SameFirsts.append`, `SameFirsts.filter`, `SameFirsts.flatMap`, `SameFirsts.map`: exchanging parts.
`sameFirsts_append_of_subset`: leaving out what came before.
`distinct_eq`: where equal names mean equal references, dropping repeated names is dropping repeated references.
-/
import ApiSurface.Interfaces.Closure
import Mathlib.Data.List.Basic

namespace ApiSurface

variable {α β : Type} [DecidableEq α] [DecidableEq β]

/-- the same entries, first met in the same order -/
def SameFirsts (xs ys : List α) : Prop := xs.eraseDups = ys.eraseDups

/-- induction along first places: what follows an entry is taken without its repetitions -/
theorem firsts_induction {p : List α → Prop} (nil : p [])
    (cons : ∀ x rest, p (rest.filter fun y => !y == x) → p (x :: rest)) (xs : List α) : p xs := by
  induction hlength : xs.length using Nat.strongRecOn generalizing xs with
  | ind n ih =>
    cases xs with
    | nil => exact nil
    | cons x rest =>
      have hshort := List.length_filter_le (fun y => !y == x) rest
      rw [List.length_cons] at hlength
      exact cons x rest (ih _ (by omega) _ rfl)

theorem eraseDups_filter (p : α → Bool) (xs : List α) : (xs.filter p).eraseDups = xs.eraseDups.filter p := by
  induction xs using firsts_induction with
  | nil => rfl
  | cons x rest ih =>
    rw [List.filter_filter] at ih
    by_cases hx : p x = true
    · rw [List.filter_cons_of_pos hx, List.eraseDups_cons, List.eraseDups_cons, List.filter_cons_of_pos hx, ← ih,
        List.filter_filter]
      simp only [Bool.and_comm]
    · -- what `p` drops anyway need not be told apart
      have hsame : rest.filter p = rest.filter fun y => p y && !y == x := by
        apply List.filter_congr
        intro y _
        by_cases hy : y = x
        · simp [hy, hx]
        · simp [hy]
      rw [List.filter_cons_of_neg hx, List.eraseDups_cons, List.filter_cons_of_neg hx, ← ih, hsame]

namespace SameFirsts

variable {xs xs' ys ys' : List α}

theorem refl (xs : List α) : SameFirsts xs xs := rfl

theorem of_eq (h : xs = ys) : SameFirsts xs ys := congrArg List.eraseDups h

theorem symm (h : SameFirsts xs ys) : SameFirsts ys xs := Eq.symm h

theorem trans {zs : List α} (h : SameFirsts xs ys) (h' : SameFirsts ys zs) : SameFirsts xs zs := Eq.trans h h'

theorem mem_iff (h : SameFirsts xs ys) {x : α} : x ∈ xs ↔ x ∈ ys := by
  rw [← List.mem_eraseDups, h, List.mem_eraseDups]

theorem eraseDups (xs : List α) : SameFirsts xs.eraseDups xs := by
  induction xs using firsts_induction with
  | nil => rfl
  | cons x rest ih =>
    rw [SameFirsts, List.eraseDups_cons, List.eraseDups_cons, ← eraseDups_filter, List.filter_filter]
    simp only [Bool.and_self]
    exact congrArg _ ih

theorem filter (h : SameFirsts xs ys) (p : α → Bool) : SameFirsts (xs.filter p) (ys.filter p) := by
  unfold SameFirsts at *
  rw [eraseDups_filter, eraseDups_filter, h]

theorem append (h : SameFirsts xs xs') (h' : SameFirsts ys ys') : SameFirsts (xs ++ ys) (xs' ++ ys') := by
  have hremove : ys.removeAll xs = ys.removeAll xs' := by
    rw [List.removeAll, List.removeAll]
    apply List.filter_congr
    intro y _
    simp only [List.elem_eq_mem, h.mem_iff]
  have hfilter : (ys.removeAll xs').eraseDups = (ys'.removeAll xs').eraseDups := h'.filter _
  unfold SameFirsts at h ⊢
  rw [List.eraseDups_append, List.eraseDups_append, h, hremove, hfilter]

end SameFirsts

/-- what came before may be left out -/
theorem sameFirsts_append_of_subset {xs ys : List α} (h : ys ⊆ xs) : SameFirsts (xs ++ ys) xs := by
  have hremove : ys.removeAll xs = [] := by
    rw [List.removeAll, List.filter_eq_nil_iff]
    intro y hy
    simpa using h hy
  rw [SameFirsts, List.eraseDups_append, hremove]
  exact List.append_nil _

/-- an entry whose image came before may be left out of what is mapped -/
theorem sameFirsts_flatMap_filter (f : α → List β) (x : α) (rest : List α) {before : List β} (hx : f x ⊆ before) :
    SameFirsts (before ++ rest.flatMap f) (before ++ (rest.filter fun y => !y == x).flatMap f) := by
  induction rest generalizing before with
  | nil => exact .refl _
  | cons y rest ih =>
    by_cases hy : y = x
    · rw [List.filter_cons_of_neg (by simpa using hy), List.flatMap_cons, ← List.append_assoc, hy]
      exact ((sameFirsts_append_of_subset hx).append (.refl _)).trans (ih hx)
    · rw [List.filter_cons_of_pos (by simpa using hy), List.flatMap_cons, List.flatMap_cons, ← List.append_assoc,
        ← List.append_assoc]
      exact ih (List.subset_append_of_subset_left _ hx)

namespace SameFirsts

theorem flatMap_eraseDups (f : α → List β) (xs : List α) : SameFirsts (xs.flatMap f) (xs.eraseDups.flatMap f) := by
  induction xs using firsts_induction with
  | nil => rfl
  | cons x rest ih =>
    rw [List.eraseDups_cons, List.flatMap_cons, List.flatMap_cons]
    exact (sameFirsts_flatMap_filter f x rest (List.Subset.refl _)).trans ((SameFirsts.refl _).append ih)

theorem flatMap {xs ys : List α} (h : SameFirsts xs ys) (f : α → List β) : SameFirsts (xs.flatMap f) (ys.flatMap f) := by
  refine (flatMap_eraseDups f xs).trans ?_
  rw [h]
  exact (flatMap_eraseDups f ys).symm

theorem map {xs ys : List α} (h : SameFirsts xs ys) (f : α → β) : SameFirsts (xs.map f) (ys.map f) := by
  have hmap := h.flatMap fun x => [f x]
  rwa [← List.map_eq_flatMap, ← List.map_eq_flatMap] at hmap

end SameFirsts

/-! ## Names -/

/-- equal names mean equal references -/
def TypeRef.NamesTell (rs : List TypeRef) : Prop :=
  ∀ r ∈ rs, ∀ r' ∈ rs, r.canonicalName = r'.canonicalName → r = r'

instance (rs : List TypeRef) : Decidable (TypeRef.NamesTell rs) :=
  inferInstanceAs (Decidable (∀ r ∈ rs, ∀ r' ∈ rs, r.canonicalName = r'.canonicalName → r = r'))

theorem TypeRef.distinctAfter_eq (seen : List String) {rs : List TypeRef} (h : NamesTell rs) :
    distinctAfter seen rs = (rs.filter fun r => !seen.contains r.canonicalName).eraseDups := by
  induction rs generalizing seen with
  | nil => rfl
  | cons r rest ih =>
    have hrest : NamesTell rest := fun a ha b hb =>
      h a (List.mem_cons_of_mem _ ha) b (List.mem_cons_of_mem _ hb)
    rw [distinctAfter]
    by_cases hseen : seen.contains r.canonicalName = true
    · rw [if_pos hseen, ih seen hrest, List.filter_cons_of_neg (by simpa using hseen)]
    · rw [if_neg hseen, ih _ hrest, List.filter_cons_of_pos (by simpa using hseen), List.eraseDups_cons,
        List.filter_filter]
      congr 2
      apply List.filter_congr
      intro b hb
      have hname : b.canonicalName = r.canonicalName ↔ b = r :=
        ⟨h b (List.mem_cons_of_mem _ hb) r List.mem_cons_self, fun heq => heq ▸ rfl⟩
      rw [List.contains_cons, Bool.not_or, Bool.eq_iff_iff]
      simp [hname]

theorem TypeRef.distinct_eq {rs : List TypeRef} (h : NamesTell rs) : distinct rs = rs.eraseDups := by
  rw [distinct, distinctAfter_eq [] h]
  congr 1
  simp

end ApiSurface
