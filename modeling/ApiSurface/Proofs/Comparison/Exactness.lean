/-
A comparison reports exactly what the candidate breaks.

What there is to report is said by pairs: the types of one name that take part on both sides, and for a member of the
baseline the members of the partner that have its signature. Nothing here knows how partners are looked up.

`marks_violations`: all violations found, by kind and Ids, are the lost types, the changed types, the lost members and
the changed members, each as often as it occurs.
`compare_exact`: a report holds just these, approved ones apart from the others, both in order.
-/
import ApiSurface.Comparison.Basic
import ApiSurface.Proofs.Comparison.Order
import ApiSurface.Proofs.Listing.Validity
import Mathlib.Algebra.Order.Group.Multiset
import Mathlib.Tactic.Abel

namespace ApiSurface.Comparison

/-! ## What there is to report -/

/-- a violation without its wording: its kind, and the Ids that approvals go by -/
abbrev Mark := ViolationKind × Exclusion

def mark (v : Violation) : Mark := (v.kind, v.key)

/-- types without a partner of their name -/
def lostTypes (types candidates : List TypeDescriptor) : List Mark :=
  (types.filter fun t => decide (∀ c ∈ candidates, c.name ≠ t.name)).map fun t => (.typeRemoved, ⟨t.id, none⟩)

/-- the pairs of types of one name -/
def pairs (types candidates : List TypeDescriptor) : List (TypeDescriptor × TypeDescriptor) :=
  types.flatMap fun t => (candidates.filter fun c => decide (c.name = t.name)).map fun c => (t, c)

/-- pairs whose Ids differ -/
def changedTypes (types candidates : List TypeDescriptor) : List Mark :=
  ((pairs types candidates).filter fun p => decide (p.2.id ≠ p.1.id)).map fun p => (.typeChanged, ⟨p.1.id, none⟩)

/-- the members of a type that have a member's signature, among those that take part -/
def rivals (keep : DescriptorFilter) (c : TypeDescriptor) (m : MemberDescriptor) : List MemberDescriptor :=
  (keep.members c).filter fun n => decide (n.signature = m.signature)

/-- the members of a pair's baseline that the partner has no rival of -/
def lostMembersOf (keep : DescriptorFilter) (t c : TypeDescriptor) : List Mark :=
  ((keep.members t).filter fun m => decide (rivals keep c m = [])).map fun m => (.memberRemoved, ⟨t.id, some m.id⟩)

/-- there are rivals of a member, but none with its Id -/
def Replaced (rivals : List MemberDescriptor) (m : MemberDescriptor) : Prop := rivals ≠ [] ∧ ∀ n ∈ rivals, n.id ≠ m.id

instance (rivals : List MemberDescriptor) (m : MemberDescriptor) : Decidable (Replaced rivals m) :=
  inferInstanceAs (Decidable (rivals ≠ [] ∧ ∀ n ∈ rivals, n.id ≠ m.id))

/-- the members of a pair's baseline that the partner has replaced -/
def changedMembersOf (keep : DescriptorFilter) (t c : TypeDescriptor) : List Mark :=
  ((keep.members t).filter fun m => decide (Replaced (rivals keep c m) m)).map fun m =>
    (.memberChanged, ⟨t.id, some m.id⟩)

/-- everything there is to report: nothing about the members of a lost type -/
def breaks (keep : DescriptorFilter) (types candidates : List TypeDescriptor) : Multiset Mark :=
  lostTypes types candidates + changedTypes types candidates +
    (((pairs types candidates).flatMap fun p => lostMembersOf keep p.1 p.2 : List Mark) +
      ((pairs types candidates).flatMap fun p => changedMembersOf keep p.1 p.2 : List Mark))

/-! ## One type after the other -/

theorem pairs_cons (t : TypeDescriptor) (types candidates : List TypeDescriptor) :
    pairs (t :: types) candidates = pairs [t] candidates ++ pairs types candidates := by
  simp [pairs]

theorem lostTypes_cons (t : TypeDescriptor) (types candidates : List TypeDescriptor) :
    lostTypes (t :: types) candidates = lostTypes [t] candidates ++ lostTypes types candidates := by
  unfold lostTypes
  rw [← List.map_append, ← List.filter_append, List.singleton_append]

/-- what there is to report of types is what there is to report of the first and of the others -/
theorem breaks_cons (keep : DescriptorFilter) (t : TypeDescriptor) (types candidates : List TypeDescriptor) :
    breaks keep (t :: types) candidates = breaks keep [t] candidates + breaks keep types candidates := by
  unfold breaks changedTypes
  rw [lostTypes_cons, pairs_cons, List.filter_append, List.map_append, List.flatMap_append, List.flatMap_append]
  simp only [← Multiset.coe_add]
  abel

/-! ## Partners -/

/-- the types of one name among types of distinct names -/
theorem filter_name_eq {types : List TypeDescriptor} (h : (types.map TypeDescriptor.name).Nodup) {c : TypeDescriptor}
    (hc : c ∈ types) : (types.filter fun x => decide (x.name = c.name)) = [c] := by
  induction types with
  | nil => cases hc
  | cons x rest ih =>
    rw [List.map_cons, List.nodup_cons] at h
    rcases List.mem_cons.1 hc with rfl | hc
    · have hrest : rest.filter (fun x => decide (x.name = c.name)) = [] := by
        rw [List.filter_eq_nil_iff]
        intro y hy hname
        exact h.1 (of_decide_eq_true hname ▸ List.mem_map_of_mem hy)
      rw [List.filter_cons_of_pos (by simp), hrest]
    · have hx : x.name ≠ c.name := fun hname => h.1 (hname ▸ List.mem_map_of_mem hc)
      rw [List.filter_cons_of_neg (by simpa using hx), ih h.2 hc]

theorem named?_eq (types : List TypeDescriptor) (name : String) :
    named? types name = (types.filter fun c => decide (c.name = name)).getLast? := rfl

/-- what is found of one member -/
theorem marks_compareMember (t : TypeDescriptor) (m : MemberDescriptor) (rivals : List MemberDescriptor) :
    (compareMember t m rivals).map mark =
      (if rivals = [] then [(.memberRemoved, ⟨t.id, some m.id⟩)] else []) ++
        (if Replaced rivals m then [(.memberChanged, ⟨t.id, some m.id⟩)] else []) := by
  cases rivals with
  | nil => rfl
  | cons first rest =>
    simp only [compareMember]
    by_cases h : ∃ n ∈ first :: rest, n.id = m.id
    · obtain ⟨n, hn, hid⟩ := h
      have hany : ((first :: rest).any fun c => c.id == m.id) = true :=
        List.any_eq_true.2 ⟨n, hn, beq_iff_eq.2 hid⟩
      have hkept : ¬Replaced (first :: rest) m := fun hr => hr.2 n hn hid
      rw [if_pos hany, if_neg (List.cons_ne_nil _ _), if_neg hkept]
      rfl
    · have hnone : ∀ n ∈ first :: rest, n.id ≠ m.id := fun n hn hid => h ⟨n, hn, hid⟩
      have hany : ¬((first :: rest).any fun c => c.id == m.id) = true := by
        rw [List.any_eq_true]
        rintro ⟨n, hn, hid⟩
        exact hnone n hn (beq_iff_eq.1 hid)
      rw [if_neg hany, if_neg (List.cons_ne_nil _ _), if_pos ⟨List.cons_ne_nil _ _, hnone⟩]
      rfl

theorem map_filter_cons {α β : Type} (p : α → Bool) (f : α → β) (x : α) (rest : List α) :
    ((x :: rest).filter p).map f = (if p x then [f x] else []) ++ (rest.filter p).map f := by
  by_cases h : p x <;> simp [h]

/-- the members of a pair, each lost, replaced or neither -/
theorem marks_members (keep : DescriptorFilter) (t c : TypeDescriptor) :
    (((keep.members t).flatMap fun m => compareMember t m (rivals keep c m)).map mark : Multiset Mark) =
      lostMembersOf keep t c + changedMembersOf keep t c := by
  unfold lostMembersOf changedMembersOf
  induction keep.members t with
  | nil => rfl
  | cons m rest ih =>
    rw [List.flatMap_cons, List.map_append, marks_compareMember, map_filter_cons, map_filter_cons]
    simp only [← Multiset.coe_add, ih, decide_eq_true_eq]
    abel

/-- **One type.** What is found of a type is what there is to report of it. -/
theorem marks_compareType (keep : DescriptorFilter) (t : TypeDescriptor) {candidates : List TypeDescriptor}
    (h : (candidates.map TypeDescriptor.name).Nodup) :
    ((compareType keep t (named? candidates t.name)).map mark : Multiset Mark) = breaks keep [t] candidates := by
  by_cases hc : ∃ c ∈ candidates, c.name = t.name
  · obtain ⟨c, hc, hname⟩ := hc
    have hfilter : (candidates.filter fun x => decide (x.name = t.name)) = [c] := hname ▸ filter_name_eq h hc
    have hlost : lostTypes [t] candidates = [] := by
      simp only [lostTypes, List.map_eq_nil_iff, List.filter_eq_nil_iff, List.mem_singleton, forall_eq, decide_eq_true_eq]
      exact fun hall => hall c hc hname
    have hpairs : pairs [t] candidates = [(t, c)] := by simp [pairs, hfilter]
    have hchanged : changedTypes [t] candidates = if c.id = t.id then [] else [(.typeChanged, ⟨t.id, none⟩)] := by
      by_cases hid : c.id = t.id <;> simp [changedTypes, hpairs, hid]
    have hfound : (compareType keep t (named? candidates t.name)).map mark =
        (if c.id = t.id then [] else [(.typeChanged, ⟨t.id, none⟩)]) ++
          ((keep.members t).flatMap fun m => compareMember t m (rivals keep c m)).map mark := by
      rw [named?_eq, hfilter, List.getLast?_singleton]
      simp only [compareType, List.map_append]
      by_cases hid : c.id = t.id <;> simp [hid, mark, changedType, Violation.key, rivals]
    rw [hfound, ← Multiset.coe_add, marks_members, breaks, hlost, hchanged, hpairs]
    simp
  · have hnone : ∀ x ∈ candidates, x.name ≠ t.name := fun x hx hname => hc ⟨x, hx, hname⟩
    have hfilter : (candidates.filter fun x => decide (x.name = t.name)) = [] := by
      rw [List.filter_eq_nil_iff]
      exact fun x hx hname => hnone x hx (of_decide_eq_true hname)
    have hlost : lostTypes [t] candidates = [(.typeRemoved, ⟨t.id, none⟩)] := by
      simp only [lostTypes]
      rw [List.filter_cons_of_pos (by simpa using hnone)]
      rfl
    have hpairs : pairs [t] candidates = [] := by simp [pairs, hfilter]
    rw [named?_eq, hfilter, breaks, hlost, changedTypes, hpairs]
    rfl

/-! ## The whole comparison -/

/-- **All violations.** What is found of a listing is what there is to report of its types. -/
theorem marks_violations (keep : DescriptorFilter) (baseline : Listing) {candidate : Listing}
    (h : ((keep.types candidate).map TypeDescriptor.name).Nodup) :
    ((violations baseline candidate keep).map mark : Multiset Mark) =
      breaks keep (keep.types baseline) (keep.types candidate) := by
  unfold violations
  induction keep.types baseline with
  | nil => rfl
  | cons t rest ih =>
    rw [List.flatMap_cons, List.map_append, ← Multiset.coe_add, marks_compareType keep t h, ih, ← breaks_cons]

/-- the types of a valid listing that take part have distinct names -/
theorem nodup_names_types (keep : DescriptorFilter) {l : Listing} (h : l.Valid) :
    ((keep.types l).map TypeDescriptor.name).Nodup :=
  h.distinct.sublist (List.filter_sublist.map _)

/-- the two parts of a report hold what was found -/
theorem perm_report (baseline candidate : Listing) (exclusions : ExclusionSet) (keep : DescriptorFilter) :
    ((baseline.compare candidate exclusions keep).violations ++
      (baseline.compare candidate exclusions keep).suppressed).Perm (violations baseline candidate keep) := by
  refine List.Perm.trans (List.Perm.append (Violation.sort_perm _) (Violation.sort_perm _)) ?_
  exact List.Perm.trans List.perm_append_comm (List.filter_append_perm _ _)

/-- what is found is in a report, approved or not -/
theorem mem_report {baseline candidate : Listing} {keep : DescriptorFilter} (exclusions : ExclusionSet)
    {v : Violation} (hv : v ∈ violations baseline candidate keep) :
    v ∈ (baseline.compare candidate exclusions keep).violations ++
      (baseline.compare candidate exclusions keep).suppressed :=
  (perm_report baseline candidate exclusions keep).mem_iff.2 hv

theorem mem_violations_iff {baseline candidate : Listing} {exclusions : ExclusionSet} {keep : DescriptorFilter}
    {v : Violation} : v ∈ (baseline.compare candidate exclusions keep).violations ↔
      v ∈ violations baseline candidate keep ∧ v.key ∉ exclusions.toList := by
  unfold Listing.compare
  rw [(Violation.sort_perm _).mem_iff, List.mem_filter]
  simp [ExclusionSet.approves, ExclusionSet.has]

theorem mem_suppressed_iff {baseline candidate : Listing} {exclusions : ExclusionSet} {keep : DescriptorFilter}
    {v : Violation} : v ∈ (baseline.compare candidate exclusions keep).suppressed ↔
      v ∈ violations baseline candidate keep ∧ v.key ∈ exclusions.toList := by
  unfold Listing.compare
  rw [(Violation.sort_perm _).mem_iff, List.mem_filter]
  simp [ExclusionSet.approves, ExclusionSet.has]

/-- **A report is exact.** Whatever the exclusions and the filter, what a report of valid listings holds, approved or
not, is by kind and Ids everything there is to report, and nothing else. What is approved stands with the suppressed
violations, what is not with the others, and both stand in order. -/
theorem compare_exact (baseline candidate : Listing) (exclusions : ExclusionSet) (keep : DescriptorFilter)
    (hcandidate : candidate.validate = .ok ()) :
    let report := baseline.compare candidate exclusions keep
    ((report.violations ++ report.suppressed).map mark : Multiset Mark) =
        breaks keep (keep.types baseline) (keep.types candidate) ∧
      (∀ v ∈ report.violations ++ report.suppressed,
        (v ∈ report.suppressed ↔ v.key ∈ exclusions.toList) ∧ (v ∈ report.violations ↔ v.key ∉ exclusions.toList)) ∧
      report.violations.Pairwise Violation.Precedes ∧ report.suppressed.Pairwise Violation.Precedes := by
  intro report
  have hvalid := (Listing.validate_eq_ok_iff candidate).1 hcandidate
  have hperm := perm_report baseline candidate exclusions keep
  refine ⟨?_, ?_, Violation.pairwise_sort _, Violation.pairwise_sort _⟩
  · rw [Multiset.coe_eq_coe.2 (hperm.map mark)]
    exact marks_violations keep baseline (nodup_names_types keep hvalid)
  · intro v hv
    have hfound : v ∈ violations baseline candidate keep := hperm.mem_iff.1 hv
    exact ⟨mem_suppressed_iff.trans (and_iff_right hfound), mem_violations_iff.trans (and_iff_right hfound)⟩

/-- two conversions that share a signature, and a type that is about to go -/
def convertible : Listing :=
  ⟨"Lib", [((TypeDescriptor.ofClass "A").withMember (.method "op" "B")).withMember (.method "op" "C"),
    TypeDescriptor.ofInterface "Z"]⟩

/-- one conversion gives another type, and the type is gone -/
def converted : Listing :=
  ⟨"Lib", [((TypeDescriptor.ofClass "A").withMember (.method "op" "C")).withMember (.method "op" "D")]⟩

/-- of the conversions only the one whose Id is lost counts as changed; the approved removal is counted too -/
theorem compare_exact_converted :
    converted.validate = .ok () ∧
      (let report := convertible.compare converted (ExclusionSet.ofList [⟨"public interface Z", none⟩]) .keepAll
      ((report.violations ++ report.suppressed).map mark : Multiset Mark) =
        {(.memberChanged, ⟨"public class A", some "public B op()"⟩), (.typeRemoved, ⟨"public interface Z", none⟩)}) := by
  have hvalid : converted.validate = .ok () := by decide
  exact ⟨hvalid, (compare_exact convertible converted _ .keepAll hvalid).1.trans (by decide)⟩

end ApiSurface.Comparison
