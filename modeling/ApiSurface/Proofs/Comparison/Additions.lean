/-
Additions to a candidate never make a report worse.

Types may gain members at any place, and the listing types at any place, as long as these have no name of the baseline. A new
member may share the signature of an old one and so join its rivals: a lost member may then count as changed, or as kept,
and a changed one as kept, but nothing goes the other way.

`milder_compareMember`, `milder_compareType`: one member and one type, whose rivals and partner have gained members.
`milder_violations`: the whole comparison.
`compare_enlarged`: reports, whatever is approved.
-/
import ApiSurface.Proofs.Comparison.Compatibility
import ApiSurface.Proofs.Comparison.Reordering

namespace ApiSurface

/-! ## Listings with additions -/

/-- the type with members put in among its own -/
def TypeDescriptor.Enlarged (t u : TypeDescriptor) : Prop :=
  ∃ members, t.members.Sublist members ∧ u = { t with members := members }

namespace TypeDescriptor.Enlarged

variable {t u : TypeDescriptor}

theorem name_eq (h : Enlarged t u) : u.name = t.name := by
  obtain ⟨members, -, rfl⟩ := h
  rfl

/-- the Id shows no members -/
theorem id_eq (h : Enlarged t u) : u.id = t.id := by
  obtain ⟨members, -, rfl⟩ := h
  rfl

theorem members_sublist (h : Enlarged t u) : t.members.Sublist u.members := by
  obtain ⟨members, hmembers, rfl⟩ := h
  exact hmembers

end TypeDescriptor.Enlarged

/-- types, each with members put in, and new types put in among them -/
inductive TypesEnlarged (new : TypeDescriptor → Prop) : List TypeDescriptor → List TypeDescriptor → Prop
  | nil : TypesEnlarged new [] []
  | kept {t u : TypeDescriptor} {ts us : List TypeDescriptor} (htu : t.Enlarged u) (hrest : TypesEnlarged new ts us) :
      TypesEnlarged new (t :: ts) (u :: us)
  | added {u : TypeDescriptor} {ts us : List TypeDescriptor} (hu : new u) (hrest : TypesEnlarged new ts us) :
      TypesEnlarged new ts (u :: us)

namespace TypesEnlarged

variable {new : TypeDescriptor → Prop} {ts us : List TypeDescriptor}

/-- what is kept of enlarged types, when a type is kept with its members put in or not at all -/
theorem filter {p : TypeDescriptor → Bool} (hp : ∀ t u, t.Enlarged u → p u = p t) (h : TypesEnlarged new ts us) :
    TypesEnlarged (fun u => new u ∧ p u = true) (ts.filter p) (us.filter p) := by
  induction h with
  | nil => exact .nil
  | @kept t u _ _ htu _ ih =>
    by_cases ht : p t = true
    · rw [List.filter_cons_of_pos ht, List.filter_cons_of_pos ((hp t u htu).trans ht)]
      exact .kept htu ih
    · rw [List.filter_cons_of_neg ht, List.filter_cons_of_neg (hp t u htu ▸ ht)]
      exact ih
  | @added u _ _ hu _ ih =>
    by_cases hkept : p u = true
    · rw [List.filter_cons_of_pos hkept]
      exact .added ⟨hu, hkept⟩ ih
    · rw [List.filter_cons_of_neg hkept]
      exact ih

/-- where nothing is new, types are enlarged one by one -/
theorem forall₂ (h : TypesEnlarged new ts us) (hnone : ∀ u, ¬new u) : List.Forall₂ TypeDescriptor.Enlarged ts us := by
  induction h with
  | nil => exact .nil
  | kept htu _ ih => exact .cons htu ih
  | added hu _ _ => exact absurd hu (hnone _)

end TypesEnlarged

namespace Comparison

/-! ## Milder findings -/

/-- a violation of a type itself -/
def ofType (v : Violation) : Bool := v.kind == .typeRemoved || v.kind == .typeChanged

/-- a lost member -/
def ofLostMember (v : Violation) : Bool := v.kind == .memberRemoved

/-- of types the same is found, in the same order; nothing is found under a key, and no member lost, that was not before,
nor more often than before -/
structure Milder (after before : List Violation) : Prop where
  types : after.filter ofType = before.filter ofType
  keys : (after.map Violation.key).Subperm (before.map Violation.key)
  losses : (after.filter ofLostMember).Subperm (before.filter ofLostMember)

namespace Milder

variable {after before after' before' : List Violation}

theorem refl (found : List Violation) : Milder found found := ⟨rfl, .refl _, .refl _⟩

theorem append (h : Milder after before) (h' : Milder after' before') : Milder (after ++ after') (before ++ before') where
  types := by rw [List.filter_append, List.filter_append, h.types, h'.types]
  keys := by
    rw [List.map_append, List.map_append]
    exact h.keys.append h'.keys
  losses := by
    rw [List.filter_append, List.filter_append]
    exact h.losses.append h'.losses

theorem flatMap {α : Type} {f g : α → List Violation} (xs : List α) (h : ∀ x ∈ xs, Milder (f x) (g x)) :
    Milder (xs.flatMap f) (xs.flatMap g) := by
  induction xs with
  | nil => exact refl []
  | cons x rest ih =>
    rw [List.flatMap_cons, List.flatMap_cons]
    exact (h x List.mem_cons_self).append (ih fun y hy => h y (List.mem_cons_of_mem x hy))

/-- approvals go by keys, so they part milder findings into milder ones -/
theorem filter (h : Milder after before) (p : Exclusion → Bool) :
    Milder (after.filter fun v => p v.key) (before.filter fun v => p v.key) where
  types := by
    rw [List.filter_filter, List.filter_filter]
    simp only [Bool.and_comm (ofType _), ← List.filter_filter, h.types]
  keys := by
    have hkeys : ((after.map Violation.key).filter p).Subperm ((before.map Violation.key).filter p) := h.keys.filter p
    rwa [List.filter_map, List.filter_map] at hkeys
  losses := by
    rw [List.filter_filter, List.filter_filter]
    simp only [Bool.and_comm (ofLostMember _), ← List.filter_filter]
    exact h.losses.filter _

theorem sort (h : Milder after before) : Milder (Violation.sort after) (Violation.sort before) where
  types := by rw [← Violation.sort_filter, ← Violation.sort_filter, h.types]
  keys := by
    have hkeys := fun vs => (Violation.sort_perm vs).map Violation.key
    exact (hkeys after).subperm_right.2 ((hkeys before).subperm_left.2 h.keys)
  losses := by
    have hlosses := fun vs => (Violation.sort_perm vs).filter ofLostMember
    exact (hlosses after).subperm_right.2 ((hlosses before).subperm_left.2 h.losses)

/-- where nothing was found nothing is -/
theorem eq_nil (h : Milder after []) : after = [] :=
  List.map_eq_nil_iff.1 (List.subperm_nil.1 h.keys)

end Milder

/-! ## Members and types -/

/-- to be changed is no worse than to be lost or changed, and to be kept no worse than either -/
theorem milder_member {t : TypeDescriptor} {m : MemberDescriptor} {after before : List Violation}
    (hafter : after = [] ∨ ∃ n, after = [changedMember t m n])
    (hbefore : before = [removedMember t m] ∨ ∃ n, before = [changedMember t m n]) : Milder after before := by
  have htypes : before.filter ofType = [] := by rcases hbefore with rfl | ⟨n, rfl⟩ <;> rfl
  have hkeys : before.map Violation.key = [⟨t.id, some m.id⟩] := by rcases hbefore with rfl | ⟨n, rfl⟩ <;> rfl
  rcases hafter with rfl | ⟨n, rfl⟩
  · exact ⟨htypes.symm, List.nil_subperm, List.nil_subperm⟩
  · exact ⟨htypes.symm, hkeys ▸ .refl _, List.nil_subperm⟩

/-- more rivals never make it worse for a member -/
theorem milder_compareMember (t : TypeDescriptor) (m : MemberDescriptor) {rivals rivals' : List MemberDescriptor}
    (h : rivals ⊆ rivals') : Milder (compareMember t m rivals') (compareMember t m rivals) := by
  rcases compareMember_cases t m rivals' with ⟨-, hafter⟩ | ⟨hnone, hafter⟩ | ⟨-, n', -, hafter⟩
  · rcases compareMember_cases t m rivals with ⟨-, hbefore⟩ | ⟨-, hbefore⟩ | ⟨-, n, -, hbefore⟩
    · rw [hafter, hbefore]
      exact .refl []
    · exact milder_member (Or.inl hafter) (Or.inl hbefore)
    · exact milder_member (Or.inl hafter) (Or.inr ⟨n, hbefore⟩)
  · -- without rivals now there were none before
    rw [hnone] at h
    rw [List.subset_nil.1 h, hnone]
    exact .refl _
  · rcases compareMember_cases t m rivals with ⟨⟨n, hn, hid⟩, -⟩ | ⟨-, hbefore⟩ | ⟨-, n, -, hbefore⟩
    · -- the rival with the member's Id is still there
      rw [(compareMember_eq_nil_iff t m rivals').2 ⟨n, h hn, hid⟩] at hafter
      cases hafter
    · exact milder_member (Or.inr ⟨n', hafter⟩) (Or.inl hbefore)
    · exact milder_member (Or.inr ⟨n', hafter⟩) (Or.inr ⟨n, hbefore⟩)

variable {keep : DescriptorFilter}

theorem rivals_subset {c d : TypeDescriptor} (h : c.Enlarged d) (m : MemberDescriptor) : rivals keep c m ⊆ rivals keep d m :=
  ((h.members_sublist.filter _).filter _).subset

/-- **One type.** A partner that has gained members makes nothing worse. -/
theorem milder_compareType (t : TypeDescriptor) {partner partner' : Option TypeDescriptor}
    (h : Option.Rel TypeDescriptor.Enlarged partner partner') :
    Milder (compareType keep t partner') (compareType keep t partner) := by
  cases h with
  | none => exact .refl _
  | @some c d hcd =>
    have hchanged : changedType t d = changedType t c := by rw [changedType, changedType, hcd.id_eq]
    rw [compareType_some, compareType_some, hcd.id_eq, hchanged]
    exact (Milder.refl _).append (.flatMap _ fun m _ => milder_compareMember t m (rivals_subset hcd m))

/-! ## Listings -/

variable (keep) in
/-- the verdict on a type does not depend on its members -/
def Shallow : Prop := ∀ t members, keep (.type { t with members := members }) = keep (.type t)

/-- partners have gained members, as long as no new type has their name -/
theorem named?_enlarged {new : TypeDescriptor → Prop} {types types' : List TypeDescriptor} {name : String}
    (hnew : ∀ u, new u → u.name ≠ name) (h : TypesEnlarged new types types') :
    Option.Rel TypeDescriptor.Enlarged (named? types name) (named? types' name) := by
  rw [named?_eq, named?_eq]
  apply getLast?_rel
  refine (h.filter fun t u htu => by rw [htu.name_eq]).forall₂ fun u hu => ?_
  exact hnew u hu.1 (of_decide_eq_true hu.2)

/-- **The whole comparison.** With additions to the candidate, milder violations are found. -/
theorem milder_violations (hkeep : Shallow keep) {baseline candidate candidate' : Listing}
    (h : TypesEnlarged (fun u => ∀ t ∈ baseline.types, u.name ≠ t.name) candidate.types candidate'.types) :
    Milder (violations baseline candidate' keep) (violations baseline candidate keep) := by
  have hkept : ∀ t u : TypeDescriptor, t.Enlarged u → keep (.type u) = keep (.type t) := by
    rintro t _ ⟨members, -, rfl⟩
    exact hkeep t members
  refine Milder.flatMap _ fun t ht => milder_compareType t (named?_enlarged ?_ (h.filter hkept))
  exact fun u hu => hu.1 t (List.mem_of_mem_filter ht)

/-- **Additions never make a report worse.** Let a candidate gain members in its types, and types of names that the baseline
does not have. Whatever is approved, the same is reported of types as before, and no key is reported, nor member as lost, that
was not before; approved violations are no worse either. What passed passes. -/
theorem compare_enlarged (exclusions : ExclusionSet) (hkeep : Shallow keep) {baseline candidate candidate' : Listing}
    (h : TypesEnlarged (fun u => ∀ t ∈ baseline.types, u.name ≠ t.name) candidate.types candidate'.types) :
    let before := baseline.compare candidate exclusions keep
    let after := baseline.compare candidate' exclusions keep
    Milder after.violations before.violations ∧ Milder after.suppressed before.suppressed ∧
      (before.passed = true → after.passed = true) := by
  intro before after
  have hfound := milder_violations hkeep h
  have hviolations : Milder after.violations before.violations := (hfound.filter fun e => !exclusions.has e).sort
  refine ⟨hviolations, (hfound.filter exclusions.has).sort, fun hpassed => ?_⟩
  rw [ComparisonReport.passed, List.isEmpty_iff] at hpassed ⊢
  rw [hpassed] at hviolations
  exact hviolations.eq_nil

/-- a class with a method and a field, and a class in a namespace of its own -/
def flatShapes : Listing :=
  ⟨"Shapes", [((TypeDescriptor.ofClass "Square").withMember (.method "Area" "Int")).withMember (.field "Side" "Int"),
    TypeDescriptor.ofClass "Hidden.Grid"]⟩

/-- the method is gone, and so is the other class -/
def bareShapes : Listing := ⟨"Shapes", [(TypeDescriptor.ofClass "Square").withMember (.field "Side" "Int")]⟩

/-- there is a method of that name again, and a class more -/
def solidShapes : Listing :=
  ⟨"Shapes", [TypeDescriptor.ofClass "Cube",
    ((TypeDescriptor.ofClass "Square").withMember (.method "Area" "Real")).withMember (.field "Side" "Int")]⟩

/-- the method was lost, and with the additions it counts as changed; nothing else is reported -/
theorem compare_enlarged_shapes :
    let keep := DescriptorFilter.excludeNamespaces ["Hidden"]
    Shallow keep ∧
      TypesEnlarged (fun u => ∀ t ∈ flatShapes.types, u.name ≠ t.name) bareShapes.types solidShapes.types ∧
      (violations flatShapes bareShapes keep).map mark =
        [(.memberRemoved, ⟨"public class Square", some "public Int Area()"⟩)] ∧
      (violations flatShapes solidShapes keep).map mark =
        [(.memberChanged, ⟨"public class Square", some "public Int Area()"⟩)] ∧
      Milder (flatShapes.compare solidShapes .empty keep).violations
        (flatShapes.compare bareShapes .empty keep).violations := by
  intro keep
  have hkeep : Shallow keep := fun _ _ => rfl
  have hsquare : (bareShapes.types[0]).Enlarged solidShapes.types[1] := ⟨_, by decide, rfl⟩
  have henlarged : TypesEnlarged (fun u => ∀ t ∈ flatShapes.types, u.name ≠ t.name) bareShapes.types solidShapes.types :=
    .added (by decide) (.kept hsquare .nil)
  exact ⟨hkeep, henlarged, by decide, by decide, (compare_enlarged .empty hkeep henlarged).1⟩

end Comparison

end ApiSurface
