/-
The order of reports, said with the orders of its parts, and sorting into it.

`isLE_order_iff`: the comparison that sorts is the lexicographic order of type Id, member Id (none first), kind and
description.
`sort_perm`, `pairwise_sort`: sorting loses and doubles nothing, and ends in that order.
`sort_filter`: sorting some of the violations leaves them as they stand among all of them.
-/
import ApiSurface.Comparison.Violation

namespace ApiSurface.Violation

/-- a member's Id stands before another's; the type itself stands before its members -/
def MemberBefore : Option String → Option String → Prop
  | none, some _ => True
  | some a, some b => a < b
  | _, none => False

/-- the violation may stand before another in a report -/
def Precedes (v w : Violation) : Prop :=
  v.typeId < w.typeId ∨ v.typeId = w.typeId ∧
    (MemberBefore v.memberId w.memberId ∨ v.memberId = w.memberId ∧
      (v.kind.rank < w.kind.rank ∨ v.kind.rank = w.kind.rank ∧ v.description ≤ w.description))

/-! ## The comparison -/

theorem compare_string_eq_lt {a b : String} : compare a b = .lt ↔ a < b := compareOfLessAndEq_eq_lt

theorem compare_string_isLE {a b : String} : (compare a b).isLE ↔ a ≤ b :=
  isLE_compareOfLessAndEq String.le_antisymm String.not_le String.le_total

theorem compare_member_eq_lt {a b : Option String} : compare a b = .lt ↔ MemberBefore a b := by
  cases a with
  | none => cases b <;> simp [compare, MemberBefore]
  | some a =>
    cases b with
    | none => simp [compare, MemberBefore]
    | some b => exact compare_string_eq_lt

theorem isLE_order_iff (v w : Violation) : (order v w).isLE ↔ Precedes v w := by
  unfold order Precedes compareLex compareOn
  simp only [Ordering.isLE_then_iff_or, compare_string_eq_lt, compare_string_isLE, compare_member_eq_lt,
    Std.LawfulEqCmp.compare_eq_iff_eq, Nat.compare_eq_lt]

instance : Std.TransCmp order :=
  inferInstanceAs (Std.TransCmp (compareLex (compareOn typeId)
    (compareLex (compareOn memberId)
      (compareLex (compareOn fun v => v.kind.rank) (compareOn description)))))

theorem rank_inj {k l : ViolationKind} (h : k.rank = l.rank) : k = l := by
  cases k <;> cases l <;> first | rfl | cases h

/-- only equal violations have one place in the order -/
instance : Std.LawfulEqCmp order where
  compare_self {v} := by simp [order, compareLex, compareOn]
  eq_of_compare {v w} h := by
    simp only [order, compareLex, compareOn, Ordering.then_eq_eq, Std.LawfulEqCmp.compare_eq_iff_eq] at h
    obtain ⟨htype, hmember, hrank, hdescription⟩ := h
    have hkind := rank_inj hrank
    cases v
    cases w
    simp_all

theorem Precedes.antisymm {v w : Violation} (hvw : Precedes v w) (hwv : Precedes w v) : v = w := by
  have horder : order v w = .eq :=
    Std.OrientedCmp.isLE_antisymm ((isLE_order_iff v w).2 hvw) ((isLE_order_iff w v).2 hwv)
  exact Std.LawfulEqCmp.eq_of_compare horder

/-! ## Sorting -/

theorem sort_perm (violations : List Violation) : (sort violations).Perm violations :=
  List.mergeSort_perm violations _

theorem pairwise_sort (violations : List Violation) : (sort violations).Pairwise Precedes := by
  have h : (sort violations).Pairwise fun v w => (order v w).isLE = true := by
    apply List.pairwise_mergeSort
    · intro u v w huv hvw
      exact Std.TransCmp.isLE_trans huv hvw
    · intro v w
      rw [Bool.or_eq_true, @Std.OrientedCmp.eq_swap _ order _ w, Ordering.isLE_swap]
      cases order v w <;> simp
  exact h.imp fun hle => (isLE_order_iff _ _).1 hle

/-- violations in order that are the same up to order are the same -/
theorem eq_of_perm_of_pairwise {vs ws : List Violation} (hperm : vs.Perm ws) (hvs : vs.Pairwise Precedes)
    (hws : ws.Pairwise Precedes) : vs = ws :=
  hperm.eq_of_pairwise (fun _ _ _ _ => Precedes.antisymm) hvs hws

/-- **Sorting some violations** gives what the sorted violations have of them. -/
theorem sort_filter (p : Violation → Bool) (violations : List Violation) :
    sort (violations.filter p) = (sort violations).filter p := by
  apply eq_of_perm_of_pairwise
  · exact (sort_perm _).trans ((sort_perm violations).filter p).symm
  · exact pairwise_sort _
  · exact (pairwise_sort violations).filter p

end ApiSurface.Violation
