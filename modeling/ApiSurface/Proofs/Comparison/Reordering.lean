/-
Reports do not depend on the order of listings, nor on the order in which the results of types come in.

`perm_compareType`, `marks_compareType_reordered`: reordering the members of a type only reorders what is found of it;
reordering those of its partner may only reword it.
`report_perm`, `report_marks`: a report depends on what was found, not on its order, and but for the wording only on kinds
and Ids.
`compare_reordered`: both together, for whole listings.
-/
import ApiSurface.Proofs.Comparison.Approval
import ApiSurface.Proofs.Comparison.Exactness
import ApiSurface.Proofs.Listing.Reordering

namespace ApiSurface.Comparison

variable (keep : DescriptorFilter) (exclusions : ExclusionSet)

/-! ## Results as they come in -/

/-- what is found of each type of the baseline -/
def results (baseline candidate : Listing) : List (List Violation) :=
  (keep.types baseline).map fun t => compareType keep t (named? (keep.types candidate) t.name)

/-- the report on violations, in whatever order they come -/
def report (found : List Violation) : ComparisonReport where
  violations := Violation.sort (found.filter fun v => !exclusions.approves v)
  suppressed := Violation.sort (found.filter exclusions.approves)
  unused := exclusions.toList.filter fun e => !(found.any fun v => v.key == e)

theorem compare_eq_report (baseline candidate : Listing) :
    baseline.compare candidate exclusions keep = report exclusions (results keep baseline candidate).flatten := by
  simp only [Listing.compare, report, results, violations, List.flatMap_def]

variable {keep exclusions}

/-- **Violations may come in any order.** -/
theorem report_perm {found found' : List Violation} (h : found.Perm found') :
    report exclusions found = report exclusions found' := by
  have hsort : ∀ p : Violation → Bool, Violation.sort (found.filter p) = Violation.sort (found'.filter p) := by
    intro p
    apply Violation.eq_of_perm_of_pairwise
    · exact (Violation.sort_perm _).trans ((h.filter p).trans (Violation.sort_perm _).symm)
    · exact Violation.pairwise_sort _
    · exact Violation.pairwise_sort _
  have hany : ∀ p : Violation → Bool, found.any p = found'.any p := fun p => h.any_eq
  simp only [report, hsort, hany]

/-- a violation without wording -/
def unworded (m : Mark) : Violation := ⟨m.2.typeId, m.2.memberId, m.1, ""⟩

@[simp] theorem mark_unworded (m : Mark) : mark (unworded m) = m := rfl

/-- what precedes does so without wording as well -/
theorem precedes_unworded {v w : Violation} (h : Violation.Precedes v w) :
    Violation.Precedes (unworded (mark v)) (unworded (mark w)) := by
  unfold Violation.Precedes at *
  rcases h with htype | ⟨htype, hmember | ⟨hmember, hrank | ⟨hrank, -⟩⟩⟩
  · exact Or.inl htype
  · exact Or.inr ⟨htype, Or.inl hmember⟩
  · exact Or.inr ⟨htype, Or.inr ⟨hmember, Or.inl hrank⟩⟩
  · exact Or.inr ⟨htype, Or.inr ⟨hmember, Or.inr ⟨hrank, String.le_refl _⟩⟩⟩

/-- violations of the same kinds and Ids are sorted to the same kinds and Ids -/
theorem marks_sort {vs ws : List Violation} (h : (vs.map mark).Perm (ws.map mark)) :
    (Violation.sort vs).map mark = (Violation.sort ws).map mark := by
  have hpairwise : ∀ us : List Violation, ((Violation.sort us).map fun v => unworded (mark v)).Pairwise
      Violation.Precedes := by
    intro us
    exact List.pairwise_map.2 ((Violation.pairwise_sort us).imp precedes_unworded)
  have hperm : ∀ us : List Violation, ((Violation.sort us).map mark).Perm (us.map mark) := fun us =>
    (Violation.sort_perm us).map mark
  have hmarks : ((Violation.sort vs).map mark).Perm ((Violation.sort ws).map mark) :=
    (hperm vs).trans (h.trans (hperm ws).symm)
  have heq : ((Violation.sort vs).map fun v => unworded (mark v)) =
      (Violation.sort ws).map fun v => unworded (mark v) := by
    apply Violation.eq_of_perm_of_pairwise _ (hpairwise vs) (hpairwise ws)
    simpa only [List.map_map, Function.comp_def] using hmarks.map unworded
  have hback := congrArg (List.map mark) heq
  simpa only [List.map_map, Function.comp_def, mark_unworded] using hback

/-- **Kinds and Ids decide** what is approved, what is unused and in which order a report stands. -/
theorem report_marks {found found' : List Violation} (h : (found.map mark).Perm (found'.map mark)) :
    (report exclusions found).unused = (report exclusions found').unused ∧
      (report exclusions found).violations.map mark = (report exclusions found').violations.map mark ∧
      (report exclusions found).suppressed.map mark = (report exclusions found').suppressed.map mark := by
  have hfilter : ∀ (p : Mark → Bool), ((found.filter fun v => p (mark v)).map mark).Perm
      ((found'.filter fun v => p (mark v)).map mark) := by
    intro p
    have hmap : ∀ vs : List Violation, (vs.filter fun v => p (mark v)).map mark = (vs.map mark).filter p := by
      intro vs
      rw [List.filter_map]
      rfl
    rw [hmap, hmap]
    exact h.filter p
  have hany : ∀ p : Mark → Bool, (found.any fun v => p (mark v)) = found'.any fun v => p (mark v) := by
    intro p
    have hmap : ∀ vs : List Violation, (vs.any fun v => p (mark v)) = (vs.map mark).any p := by
      intro vs
      rw [List.any_map]
      rfl
    rw [hmap, hmap]
    exact h.any_eq
  refine ⟨?_, ?_, ?_⟩
  · apply List.filter_congr
    intro e _
    exact congrArg (!·) (hany fun m => m.2 == e)
  · exact marks_sort (hfilter fun m => !exclusions.has m.2)
  · exact marks_sort (hfilter fun m => exclusions.has m.2)

/-! ## One type -/

/-- among entries of distinct keys at most one has a key -/
theorem length_filter_le_one {α β : Type} [DecidableEq β] {key : α → β} {xs : List α} (h : (xs.map key).Nodup) (b : β) :
    (xs.filter fun x => decide (key x = b)).length ≤ 1 := by
  have hcount := List.nodup_iff_count_le_one.1 h b
  rwa [List.count, List.countP_map, List.countP_eq_length_filter] at hcount

theorem eq_of_perm_of_length_le_one {α : Type} {xs ys : List α} (h : xs.Perm ys) (hlength : xs.length ≤ 1) : xs = ys := by
  match xs with
  | [] => exact h.nil_eq
  | [x] => exact h.singleton_eq
  | _ :: _ :: _ => simp at hlength

/-- reordering the members of a type only reorders what is found of it -/
theorem perm_compareType {t u : TypeDescriptor} (h : TypeDescriptor.Reordered t u) (partner : Option TypeDescriptor) :
    (compareType keep t partner).Perm (compareType keep u partner) := by
  obtain ⟨members, hperm, rfl⟩ := h
  cases partner with
  | none => exact List.Perm.refl _
  | some c => exact List.Perm.append (List.Perm.refl _) ((hperm.filter fun m => keep (.member m)).flatMap_right _)

theorem rivals_perm {c d : TypeDescriptor} (h : TypeDescriptor.Reordered c d) (m : MemberDescriptor) :
    (rivals keep c m).Perm (rivals keep d m) :=
  (h.members_perm.filter _).filter _

/-- kind and Ids of what becomes of a member do not depend on the order of its rivals -/
theorem marks_compareMember_perm (t : TypeDescriptor) (m : MemberDescriptor) {ns ns' : List MemberDescriptor}
    (h : ns.Perm ns') : (compareMember t m ns).map mark = (compareMember t m ns').map mark := by
  have hnil : ns = [] ↔ ns' = [] := by rw [← List.length_eq_zero_iff, h.length_eq, List.length_eq_zero_iff]
  have hreplaced : Replaced ns m ↔ Replaced ns' m := by
    unfold Replaced
    simp only [ne_eq, hnil, h.mem_iff]
  rw [marks_compareMember, marks_compareMember]
  simp only [hnil, hreplaced]

theorem compareType_some (t c : TypeDescriptor) : compareType keep t (some c) =
    (if c.id = t.id then [] else [changedType t c]) ++
      (keep.members t).flatMap fun m => compareMember t m (rivals keep c m) := rfl

/-- the declaration of a partner does not change with the order of its members -/
theorem changedType_reordered {c d : TypeDescriptor} (h : TypeDescriptor.Reordered c d) (t : TypeDescriptor) :
    changedType t d = changedType t c := by
  rw [changedType, changedType, h.id_eq]

/-- reordering the members of a partner leaves kinds and Ids as they are -/
theorem marks_compareType_reordered (t : TypeDescriptor) {partner partner' : Option TypeDescriptor}
    (h : Option.Rel TypeDescriptor.Reordered partner partner') :
    (compareType keep t partner).map mark = (compareType keep t partner').map mark := by
  cases h with
  | none => rfl
  | some h =>
    rw [compareType_some, compareType_some, h.id_eq, changedType_reordered h, List.map_append, List.map_append,
      List.map_flatMap, List.map_flatMap]
    simp only [marks_compareMember_perm t _ (rivals_perm h _)]

/-- and the wording too when no two of them share a signature -/
theorem compareType_reordered (t : TypeDescriptor) {partner partner' : Option TypeDescriptor}
    (h : Option.Rel TypeDescriptor.Reordered partner partner')
    (hsignatures : ∀ c ∈ partner, ((keep.members c).map MemberDescriptor.signature).Nodup) :
    compareType keep t partner = compareType keep t partner' := by
  cases h with
  | none => rfl
  | some h =>
    have hrivals : ∀ m, rivals keep _ m = rivals keep _ m := fun m =>
      eq_of_perm_of_length_le_one (rivals_perm h m) (length_filter_le_one (hsignatures _ rfl) m.signature)
    rw [compareType_some, compareType_some, h.id_eq, changedType_reordered h]
    simp only [hrivals]

/-! ## Whole listings -/

variable (keep) in
/-- the verdict on a type does not depend on the order of its members -/
def Unordered : Prop := ∀ t u, TypeDescriptor.Reordered t u → keep (.type t) = keep (.type u)

/-- what takes part in a listing, reordered -/
theorem types_reordered (hkeep : Unordered keep) {l k : Listing} (h : l.Reordered k) :
    AnyOrder TypeDescriptor.Reordered (keep.types l) (keep.types k) :=
  h.types.filter hkeep

/-- reordering the baseline only reorders what is found -/
theorem perm_results (hkeep : Unordered keep) {baseline baseline' : Listing} (h : baseline.Reordered baseline')
    (candidate : Listing) :
    (results keep baseline candidate).flatten.Perm (results keep baseline' candidate).flatten := by
  obtain ⟨types, hperm, hmembers⟩ := types_reordered hkeep h
  refine (hperm.map _).flatten.trans ?_
  unfold results
  generalize keep.types baseline' = types' at hmembers ⊢
  clear hperm
  induction hmembers with
  | nil => exact List.Perm.refl _
  | cons htu _ ih =>
    rw [List.map_cons, List.map_cons, List.flatten_cons, List.flatten_cons, htu.name_eq]
    exact (perm_compareType htu _).append ih

/-- reordering the types of a candidate of distinct names changes no partner -/
theorem named?_perm {types types' : List TypeDescriptor} (h : types.Perm types')
    (hdistinct : (types.map TypeDescriptor.name).Nodup) (name : String) : named? types name = named? types' name := by
  rw [named?_eq, named?_eq,
    eq_of_perm_of_length_le_one (h.filter _) (length_filter_le_one hdistinct name)]

theorem getLast?_rel {α β : Type} {r : α → β → Prop} {xs : List α} {ys : List β} (h : List.Forall₂ r xs ys) :
    Option.Rel r xs.getLast? ys.getLast? := by
  induction h with
  | nil => exact Option.Rel.none
  | cons hxy htail ih =>
    cases htail with
    | nil => exact Option.Rel.some hxy
    | cons _ _ =>
      rw [List.getLast?_cons_cons, List.getLast?_cons_cons]
      exact ih

/-- reordering the members as well reorders those of partners -/
theorem named?_reordered (hkeep : Unordered keep) {candidate candidate' : Listing} (hvalid : candidate.Valid)
    (h : candidate.Reordered candidate') (name : String) :
    Option.Rel TypeDescriptor.Reordered (named? (keep.types candidate) name) (named? (keep.types candidate') name) := by
  obtain ⟨types, hperm, hmembers⟩ := types_reordered hkeep h
  rw [named?_perm hperm (nodup_names_types keep hvalid), named?_eq, named?_eq]
  apply getLast?_rel
  refine List.rel_filter ?_ hmembers
  intro t u htu
  simp only [htu.name_eq, decide_eq_true_eq]

theorem marks_results_reordered (hkeep : Unordered keep) {candidate candidate' : Listing} (hvalid : candidate.Valid)
    (h : candidate.Reordered candidate') (baseline : Listing) :
    (results keep baseline candidate).flatten.map mark = (results keep baseline candidate').flatten.map mark := by
  have hmarks : ∀ t, (compareType keep t (named? (keep.types candidate) t.name)).map mark =
      (compareType keep t (named? (keep.types candidate') t.name)).map mark := fun t =>
    marks_compareType_reordered t (named?_reordered hkeep hvalid h t.name)
  simp only [results, List.map_flatten, List.map_map, Function.comp_def, hmarks]

theorem results_reordered (hkeep : Unordered keep) {candidate candidate' : Listing} (hvalid : candidate.Valid)
    (h : candidate.Reordered candidate')
    (hsignatures : ∀ c ∈ keep.types candidate, ((keep.members c).map MemberDescriptor.signature).Nodup)
    (baseline : Listing) : results keep baseline candidate = results keep baseline candidate' := by
  have hresult : ∀ t, compareType keep t (named? (keep.types candidate) t.name) =
      compareType keep t (named? (keep.types candidate') t.name) := by
    intro t
    refine compareType_reordered t (named?_reordered hkeep hvalid h t.name) fun c hc => hsignatures c ?_
    rw [named?_eq] at hc
    exact List.mem_of_mem_filter (List.mem_of_getLast? hc)
  simp only [results, hresult]

/-- **Reports do not depend on the order of listings.** Under a filter that judges types without regard to the order of
their members, whatever the order of the baseline's types and members, of the candidate's types, and in which the results
of types arrive, the report is the same. Reordering the candidate's members too leaves the kinds and Ids of the report
and its unused exclusions, and all of it if no two members of one of its types share a signature. -/
theorem compare_reordered (keep : DescriptorFilter) (exclusions : ExclusionSet)
    {baseline baseline' candidate candidate' : Listing} (hkeep : Unordered keep)
    (hbaseline : baseline.Reordered baseline') (hcandidate : candidate.validate = .ok ())
    {arrived : List (List Violation)} (harrived : arrived.Perm (results keep baseline' candidate')) :
    let before := baseline.compare candidate exclusions keep
    let after := report exclusions arrived.flatten
    (candidate.types.Perm candidate'.types → after = before) ∧
      (candidate.Reordered candidate' →
        after.unused = before.unused ∧ after.violations.map mark = before.violations.map mark ∧
          after.suppressed.map mark = before.suppressed.map mark) ∧
      (candidate.Reordered candidate' →
        (∀ c ∈ keep.types candidate, ((keep.members c).map MemberDescriptor.signature).Nodup) → after = before) := by
  intro before after
  have hvalid := (Listing.validate_eq_ok_iff candidate).1 hcandidate
  have hbefore : before = report exclusions (results keep baseline candidate).flatten := compare_eq_report ..
  have hafter : after = report exclusions (results keep baseline candidate').flatten :=
    report_perm (harrived.flatten.trans (perm_results hkeep hbaseline candidate').symm)
  rw [hbefore, hafter]
  refine ⟨?_, ?_, ?_⟩
  · intro htypes
    have hpartner : ∀ name, named? (keep.types candidate) name = named? (keep.types candidate') name :=
      named?_perm (htypes.filter _) (nodup_names_types keep hvalid)
    simp only [results, hpartner]
  · intro hreordered
    exact report_marks (List.Perm.of_eq (marks_results_reordered hkeep hvalid hreordered baseline).symm)
  · intro hreordered hsignatures
    rw [results_reordered hkeep hvalid hreordered hsignatures]

/-- the types and their conversions the other way round -/
def convertibleBackward : Listing :=
  ⟨"Lib", [TypeDescriptor.ofInterface "Z",
    ((TypeDescriptor.ofClass "A").withMember (.method "op" "C")).withMember (.method "op" "B")]⟩

/-- the conversions the other way round -/
def convertedBackward : Listing :=
  ⟨"Lib", [((TypeDescriptor.ofClass "A").withMember (.method "op" "D")).withMember (.method "op" "C")]⟩

/-- the lost conversion is reported whatever the order, but as changed to the first of its overloads -/
theorem compare_reordered_converted :
    let keep := DescriptorFilter.excludeNamespaces ["Hidden"]
    let exclusions := ExclusionSet.ofList [⟨"public interface Z", none⟩]
    let before := convertible.compare converted exclusions keep
    let after := report exclusions (results keep convertibleBackward convertedBackward).reverse.flatten
    Unordered keep ∧ convertible.Reordered convertibleBackward ∧ converted.Reordered convertedBackward ∧
      converted.validate = .ok () ∧ after.violations.map mark = before.violations.map mark ∧
      after.suppressed.map mark = before.suppressed.map mark ∧ after.violations ≠ before.violations := by
  intro keep exclusions before after
  have hkeep : Unordered keep := by
    intro t u h
    simp only [keep, DescriptorFilter.excludeNamespaces, h.name_eq]
  have hbaseline : convertible.Reordered convertibleBackward :=
    ⟨rfl, _, List.Perm.swap .., .cons ⟨_, List.Perm.refl _, rfl⟩ (.cons ⟨_, List.Perm.swap .., rfl⟩ .nil)⟩
  have hcandidate : converted.Reordered convertedBackward :=
    ⟨rfl, _, List.Perm.refl _, .cons ⟨_, List.Perm.swap .., rfl⟩ .nil⟩
  have hvalid : converted.validate = .ok () := by decide
  obtain ⟨-, hmarks, -⟩ := compare_reordered keep exclusions hkeep hbaseline hvalid (List.reverse_perm _)
  obtain ⟨-, hviolations, hsuppressed⟩ := hmarks hcandidate
  refine ⟨hkeep, hbaseline, hcandidate, hvalid, hviolations, hsuppressed, fun heq => ?_⟩
  let change : Violation :=
    ⟨"public class A", some "public B op()", .memberChanged, "Member `public B op()` changed to `public C op()`"⟩
  have hchange : change ∈ before.violations := mem_violations_iff.2 (by decide)
  have hreworded := (Violation.sort_perm _).mem_iff.1 (heq ▸ hchange)
  exact absurd hreworded (by decide)

end ApiSurface.Comparison
