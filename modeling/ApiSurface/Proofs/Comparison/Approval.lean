/-
Exclusions part a report in two, and change nothing else.

`violations_eq`, `suppressed_eq`, `unused_eq`: a report with exclusions, read off the report without any.
`passed_approvals`: the exclusions made from a report approve all of it.
`approvals_partition`: these together, and more exclusions leave fewer violations.
-/
import ApiSurface.Comparison.Basic
import ApiSurface.Proofs.Comparison.Exactness

namespace ApiSurface

/-! ## Sets of exclusions -/

/-- only equal exclusions have one place in the order -/
instance : Std.LawfulEqCmp Exclusion.order where
  compare_self {e} := by simp [Exclusion.order, compareLex, compareOn]
  eq_of_compare {e f} h := by
    simp only [Exclusion.order, compareLex, compareOn, Ordering.then_eq_eq, Std.LawfulEqCmp.compare_eq_iff_eq] at h
    cases e
    cases f
    simp_all

theorem Exclusion.mem_insertInto_iff {e x : Exclusion} {entries : List Exclusion} :
    x ∈ insertInto e entries ↔ x = e ∨ x ∈ entries := by
  refine ⟨mem_insertInto, ?_⟩
  induction entries with
  | nil => simp [insertInto]
  | cons y rest ih =>
    unfold insertInto
    split
    · simp
    · next heq =>
      obtain rfl := Std.LawfulEqCmp.eq_of_compare heq
      simp
    · rintro (hx | hx)
      · exact List.mem_cons_of_mem y (ih (Or.inl hx))
      · rcases List.mem_cons.1 hx with rfl | hx
        · exact List.mem_cons_self
        · exact List.mem_cons_of_mem y (ih (Or.inr hx))

namespace ExclusionSet

@[simp] theorem toList_empty : empty.toList = [] := rfl

theorem mem_insert {s : ExclusionSet} {e x : Exclusion} : x ∈ (s.insert e).toList ↔ x = e ∨ x ∈ s.toList :=
  Exclusion.mem_insertInto_iff

/-- **A set made from a list** has the entries of the list. -/
@[simp] theorem mem_ofList {entries : List Exclusion} {x : Exclusion} : x ∈ (ofList entries).toList ↔ x ∈ entries := by
  have hfold : ∀ s : ExclusionSet, x ∈ (entries.foldl insert s).toList ↔ x ∈ entries ∨ x ∈ s.toList := by
    induction entries with
    | nil => simp
    | cons e rest ih =>
      intro s
      rw [List.foldl_cons, ih, mem_insert, List.mem_cons]
      tauto
  exact (hfold empty).trans (by simp)

theorem approves_eq (s : ExclusionSet) : s.approves = fun v => decide (v.key ∈ s.toList) := by
  funext v
  simp [approves, has]

end ExclusionSet

namespace Comparison

variable (baseline candidate : Listing) (keep : DescriptorFilter) (exclusions : ExclusionSet)

/-! ## The parts of a report -/

/-- without exclusions everything that is found is a violation -/
theorem violations_empty :
    (baseline.compare candidate .empty keep).violations = Violation.sort (violations baseline candidate keep) := by
  simp [Listing.compare, ExclusionSet.approves_eq]

/-- the violations with exclusions are those without, in their order, less the approved ones -/
theorem violations_eq :
    (baseline.compare candidate exclusions keep).violations =
      (baseline.compare candidate .empty keep).violations.filter fun v => decide (v.key ∉ exclusions.toList) := by
  rw [violations_empty, ← Violation.sort_filter]
  simp [Listing.compare, ExclusionSet.approves_eq]

/-- the approved ones, in their order, are suppressed -/
theorem suppressed_eq :
    (baseline.compare candidate exclusions keep).suppressed =
      (baseline.compare candidate .empty keep).violations.filter fun v => decide (v.key ∈ exclusions.toList) := by
  rw [violations_empty, ← Violation.sort_filter]
  simp [Listing.compare, ExclusionSet.approves_eq]

/-- the exclusions that are the key of no violation are unused -/
theorem unused_eq :
    (baseline.compare candidate exclusions keep).unused = exclusions.toList.filter fun e =>
      decide (∀ v ∈ (baseline.compare candidate .empty keep).violations, v.key ≠ e) := by
  have hmem : ∀ v,
      v ∈ (baseline.compare candidate .empty keep).violations ↔ v ∈ violations baseline candidate keep := by
    intro v
    rw [violations_empty]
    exact (Violation.sort_perm _).mem_iff
  simp only [hmem]
  apply List.filter_congr
  intro e _
  rw [Bool.eq_iff_iff]
  simp

/-! ## Approving -/

/-- **Approving a report makes it pass**: all its violations are suppressed, and no approval is unused. -/
theorem passed_approvals :
    let plain := baseline.compare candidate .empty keep
    let approved := baseline.compare candidate plain.approvals keep
    approved.passed = true ∧ approved.suppressed = plain.violations ∧ approved.unused = [] := by
  intro plain approved
  have hkey : ∀ v ∈ plain.violations, v.key ∈ plain.approvals.toList := by
    intro v hv
    simpa [ComparisonReport.approvals] using ⟨v, hv, rfl⟩
  refine ⟨?_, ?_, ?_⟩
  · have hnone : approved.violations = [] := by
      rw [violations_eq, List.filter_eq_nil_iff]
      intro v hv
      simpa using hkey v hv
    simp [ComparisonReport.passed, hnone]
  · rw [suppressed_eq, List.filter_eq_self]
    intro v hv
    simpa using hkey v hv
  · rw [unused_eq, List.filter_eq_nil_iff]
    intro e he
    obtain ⟨v, hv, hve⟩ : ∃ v ∈ plain.violations, v.key = e := by simpa [ComparisonReport.approvals] using he
    simpa using ⟨v, hv, hve⟩

/-- more exclusions leave fewer violations, in their order -/
theorem violations_sublist {fewer more : ExclusionSet} (h : ∀ e ∈ fewer.toList, e ∈ more.toList) :
    (baseline.compare candidate more keep).violations.Sublist (baseline.compare candidate fewer keep).violations := by
  rw [violations_eq _ _ _ more, violations_eq _ _ _ fewer]
  apply List.monotone_filter_right
  intro v hv
  have hmore : v.key ∉ more.toList := by simpa using hv
  simpa using fun hfewer => hmore (h v.key hfewer)

/-- **Exclusions only part a report.** Of the violations of the report without exclusions, the approved ones are
suppressed and the others stay, both in their order; unused are, in the order of the set, the exclusions that are the
key of none. With the exclusions made from that report nothing is left to complain about, and with more exclusions no
violation is new. -/
theorem approvals_partition :
    let plain := baseline.compare candidate .empty keep
    let report := baseline.compare candidate exclusions keep
    let approved := baseline.compare candidate plain.approvals keep
    (report.violations = plain.violations.filter (fun v => decide (v.key ∉ exclusions.toList)) ∧
      report.suppressed = plain.violations.filter (fun v => decide (v.key ∈ exclusions.toList)) ∧
      report.unused = exclusions.toList.filter (fun e => decide (∀ v ∈ plain.violations, v.key ≠ e)) ∧
      report.unused.Pairwise (fun e f => Exclusion.order e f = .lt)) ∧
    (approved.passed = true ∧ approved.suppressed = plain.violations ∧ approved.unused = []) ∧
    ∀ more : ExclusionSet, (∀ e ∈ exclusions.toList, e ∈ more.toList) →
      (baseline.compare candidate more keep).violations.Sublist report.violations := by
  intro plain report approved
  refine ⟨⟨violations_eq _ _ _ _, suppressed_eq _ _ _ _, unused_eq _ _ _ _, ?_⟩, passed_approvals _ _ _, ?_⟩
  · exact List.Pairwise.sublist List.filter_sublist exclusions.ordered
  · intro more hmore
    exact violations_sublist _ _ _ hmore

/-- approving the changed conversion beside the lost type adds no violation -/
theorem approvals_partition_converted :
    let removal : Exclusion := ⟨"public interface Z", none⟩
    let change : Exclusion := ⟨"public class A", some "public B op()"⟩
    (∀ e ∈ (ExclusionSet.ofList [removal]).toList, e ∈ (ExclusionSet.ofList [change, removal]).toList) ∧
      (convertible.compare converted (ExclusionSet.ofList [change, removal]) .keepAll).violations.Sublist
        (convertible.compare converted (ExclusionSet.ofList [removal]) .keepAll).violations := by
  intro removal change
  have hmore : ∀ e ∈ (ExclusionSet.ofList [removal]).toList, e ∈ (ExclusionSet.ofList [change, removal]).toList := by
    decide
  exact ⟨hmore, (approvals_partition convertible converted .keepAll _).2.2 _ hmore⟩

end Comparison

end ApiSurface
