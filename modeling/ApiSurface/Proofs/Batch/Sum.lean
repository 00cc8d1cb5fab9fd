/-
A batch is the sum of its single comparisons.

What becomes of a place is said by the files there: whether the candidate has one, whether both hold a listing, and what the
comparison of the two finds. What a batch adds to this are counts, and the exclusions that it has no use for. Those are told
from comparisons only, so where nothing could be compared no exclusion counts as unused.

`comparePair_cases`, `judged_comparePair`: one place.
`report?_comparePair`, `unused_compareAll`: the exclusions that no comparison has a use for.
`compareAll_sum`: the whole batch.
-/
import ApiSurface.Batch.Basic
import ApiSurface.Proofs.Comparison.Approval
import ApiSurface.Proofs.Listing.Persistence

namespace ApiSurface

/-! ## Files -/

namespace FileTree

/-- a file lies at the end of a chain of names, and directories on the way there -/
inductive FileAt : FileTree → List String → Prop
  | here {tree : FileTree} (hfile : tree.isDirectory = false) : FileAt tree []
  | inside {entries : List (String × FileTree)} {name : String} {entry : FileTree} {rest : List String}
      (hentry : entries.lookup name = some entry) (hrest : FileAt entry rest) : FileAt (.directory entries) (name :: rest)

theorem hasFile_iff {tree : FileTree} {names : List String} : tree.hasFile names = true ↔ tree.FileAt names := by
  induction names generalizing tree with
  | nil =>
    rw [hasFile, find]
    constructor
    · exact fun hfile => .here (by simpa using hfile)
    · rintro ⟨hfile⟩
      simpa using hfile
  | cons name rest ih =>
    cases tree with
    | directory entries =>
      rw [hasFile, find]
      cases hentry : entries.lookup name with
      | none =>
        refine ⟨nofun, ?_⟩
        rintro (_ | ⟨hfound, -⟩)
        rw [hentry] at hfound
        cases hfound
      | some entry =>
        refine ih.trans ⟨.inside hentry, ?_⟩
        rintro (_ | ⟨hfound, hrest⟩)
        rw [hentry] at hfound
        cases hfound
        exact hrest
    | file content => exact ⟨nofun, nofun⟩
    | unreadable fault => exact ⟨nofun, nofun⟩

end FileTree

namespace ListingDirectory

variable {d : ListingDirectory} {names : List String} {l : Listing}

/-- where a listing is loaded from a file lies -/
theorem fileAt_of_load (h : d.load names = .ok l) : d.tree.FileAt names := by
  rw [← FileTree.hasFile_iff, FileTree.hasFile]
  rw [load, FileTree.textAt] at h
  cases hfind : d.tree.find names with
  | error fault =>
    rw [hfind] at h
    cases h
  | ok entry =>
    rw [hfind] at h
    cases entry with
    | directory entries => cases h
    | file content => rfl
    | unreadable fault => rfl

end ListingDirectory

namespace Batch

/-! ## Places -/

variable (baseline candidate : ListingDirectory) (exclusions : ExclusionSet) (keep : DescriptorFilter)

/-- the two listings at a place, when both can be loaded -/
def pair? (names : List String) : Option (Listing × Listing) :=
  match baseline.load names, candidate.load names with
  | .ok b, .ok c => some (b, c)
  | _, _ => none

/-- one of the two listings at a place cannot be loaded -/
def Unloadable (names : List String) : Prop :=
  (∃ fault, baseline.load names = .error fault) ∨ ∃ fault, candidate.load names = .error fault

/-- what the files at its place, and the single comparison of what they hold, make of a result -/
structure Judged (r : PairResult) : Prop where
  missing : r.status = .missing ↔ ¬candidate.tree.FileAt r.names
  error : r.status = .error ↔ candidate.tree.FileAt r.names ∧ Unloadable baseline candidate r.names
  judged : r.status = .passed ∨ r.status = .failed ↔ ∃ b c, pair? baseline candidate r.names = some (b, c)
  compared : ∀ b c, pair? baseline candidate r.names = some (b, c) →
    let report := b.compare c exclusions keep
    r.status = (if report.violations = [] then .passed else .failed) ∧ r.outcome.violations = report.violations ∧
      r.outcome.suppressed = report.suppressed.length

variable {baseline candidate exclusions keep}

theorem pair?_eq_some_iff {names : List String} {b c : Listing} :
    pair? baseline candidate names = some (b, c) ↔ baseline.load names = .ok b ∧ candidate.load names = .ok c := by
  unfold pair?
  cases baseline.load names with
  | error fault => exact ⟨nofun, nofun⟩
  | ok b' =>
    cases candidate.load names with
    | error fault => exact ⟨nofun, nofun⟩
    | ok c' => simp

theorem pair?_of_unloadable {names : List String} (h : Unloadable baseline candidate names) :
    pair? baseline candidate names = none := by
  rw [Option.eq_none_iff_forall_ne_some]
  rintro ⟨b, c⟩ hpair
  obtain ⟨hb, hc⟩ := pair?_eq_some_iff.1 hpair
  rcases h with ⟨fault, hfault⟩ | ⟨fault, hfault⟩
  · rw [hb] at hfault
    cases hfault
  · rw [hc] at hfault
    cases hfault

variable (baseline candidate exclusions keep) in
/-- what may become of a place -/
theorem comparePair_cases (names : List String) :
    (¬candidate.tree.FileAt names ∧ pair? baseline candidate names = none ∧
        comparePair baseline candidate exclusions keep names = .missing (candidate.pathOf names)) ∨
      (candidate.tree.FileAt names ∧ Unloadable baseline candidate names ∧ pair? baseline candidate names = none ∧
        ∃ path fault, comparePair baseline candidate exclusions keep names = .broken path fault) ∨
      (candidate.tree.FileAt names ∧ ¬Unloadable baseline candidate names ∧
        ∃ b c, pair? baseline candidate names = some (b, c) ∧
          comparePair baseline candidate exclusions keep names = .compared (b.compare c exclusions keep)) := by
  unfold comparePair
  by_cases hfile : candidate.tree.hasFile names = true
  · have hat : candidate.tree.FileAt names := FileTree.hasFile_iff.1 hfile
    rw [hfile, Bool.not_true, if_neg Bool.false_ne_true]
    cases hb : baseline.load names with
    | error fault =>
      have hunloadable : Unloadable baseline candidate names := Or.inl ⟨fault, hb⟩
      exact Or.inr (Or.inl ⟨hat, hunloadable, pair?_of_unloadable hunloadable, _, _, rfl⟩)
    | ok b =>
      cases hc : candidate.load names with
      | error fault =>
        have hunloadable : Unloadable baseline candidate names := Or.inr ⟨fault, hc⟩
        exact Or.inr (Or.inl ⟨hat, hunloadable, pair?_of_unloadable hunloadable, _, _, rfl⟩)
      | ok c =>
        have hpair : pair? baseline candidate names = some (b, c) := pair?_eq_some_iff.2 ⟨hb, hc⟩
        refine Or.inr (Or.inr ⟨hat, fun hunloadable => ?_, b, c, hpair, rfl⟩)
        rw [pair?_of_unloadable hunloadable] at hpair
        cases hpair
  · have hnone : ¬candidate.tree.FileAt names := fun hat => hfile (FileTree.hasFile_iff.2 hat)
    refine Or.inl ⟨hnone, ?_, by rw [Bool.eq_false_iff.2 hfile, Bool.not_false, if_pos rfl]⟩
    rw [Option.eq_none_iff_forall_ne_some]
    rintro ⟨b, c⟩ hpair
    exact hnone (ListingDirectory.fileAt_of_load (pair?_eq_some_iff.1 hpair).2)

/-- a pair that was compared passed or failed -/
theorem status_compared (report : ComparisonReport) :
    (PairOutcome.compared report).status = if report.violations = [] then .passed else .failed := by
  simp only [PairOutcome.status, ComparisonReport.passed, List.isEmpty_iff]

theorem passed_or_failed (report : ComparisonReport) :
    (PairOutcome.compared report).status = .passed ∨ (PairOutcome.compared report).status = .failed := by
  rw [status_compared]
  split
  · exact Or.inl rfl
  · exact Or.inr rfl

/-- **One place.** A pair is missing when the candidate has no file, an error when the file is there and one of the two cannot
be loaded, and else what the comparison of the two makes of it. -/
theorem judged_comparePair (names : List String) :
    Judged baseline candidate exclusions keep ⟨names, comparePair baseline candidate exclusions keep names⟩ := by
  rcases comparePair_cases baseline candidate exclusions keep names with
    ⟨hnone, hpair, houtcome⟩ | ⟨hat, hunloadable, hpair, path, fault, houtcome⟩ | ⟨hat, hloadable, b, c, hpair, houtcome⟩
  · rw [houtcome]
    have hnever : ∀ b c, pair? baseline candidate names ≠ some (b, c) := by simp [hpair]
    exact
      { missing := ⟨fun _ => hnone, fun _ => rfl⟩
        error := ⟨nofun, fun h => absurd h.1 hnone⟩
        judged := ⟨nofun, fun ⟨b, c, h⟩ => absurd h (hnever b c)⟩
        compared := fun b c h => absurd h (hnever b c) }
  · rw [houtcome]
    have hnever : ∀ b c, pair? baseline candidate names ≠ some (b, c) := by simp [hpair]
    exact
      { missing := ⟨nofun, fun h => absurd hat h⟩
        error := ⟨fun _ => ⟨hat, hunloadable⟩, fun _ => rfl⟩
        judged := ⟨nofun, fun ⟨b, c, h⟩ => absurd h (hnever b c)⟩
        compared := fun b c h => absurd h (hnever b c) }
  · rw [houtcome]
    have hjudged := passed_or_failed (b.compare c exclusions keep)
    refine
      { missing := ⟨fun h => ?_, fun h => absurd hat h⟩
        error := ⟨fun h => ?_, fun h => absurd h.2 hloadable⟩
        judged := ⟨fun _ => ⟨b, c, hpair⟩, fun _ => hjudged⟩
        compared := fun b' c' hpair' => ?_ }
    · change PairOutcome.status _ = _ at h
      rw [h] at hjudged
      exact absurd hjudged (by decide)
    · change PairOutcome.status _ = _ at h
      rw [h] at hjudged
      exact absurd hjudged (by decide)
    · obtain ⟨rfl, rfl⟩ := Prod.mk.inj (Option.some.inj (hpair.symm.trans hpair'))
      exact ⟨status_compared _, rfl, rfl⟩

/-! ## Counts -/

/-- every result counts once -/
theorem length_eq_counts (results : List PairResult) :
    results.length = (results.countP fun r => r.status == .passed) +
      ((results.countP fun r => r.status == .failed) + results.countP fun r => r.status == .missing) +
        results.countP fun r => r.status == .error := by
  induction results with
  | nil => rfl
  | cons r rest ih =>
    simp only [List.length_cons, List.countP_cons, ih]
    cases r.status <;> simp <;> omega

/-! ## Exclusions -/

/-- the report on a place is that on its pair -/
theorem report?_comparePair (names : List String) : (comparePair baseline candidate exclusions keep names).report? =
    (pair? baseline candidate names).map fun p => p.1.compare p.2 exclusions keep := by
  rcases comparePair_cases baseline candidate exclusions keep names with
    ⟨-, hpair, houtcome⟩ | ⟨-, -, hpair, path, fault, houtcome⟩ | ⟨-, -, b, c, hpair, houtcome⟩
  · rw [hpair, houtcome]
    rfl
  · rw [hpair, houtcome]
    rfl
  · rw [hpair, houtcome]
    rfl

theorem unusedBy_eq (reports : List ComparisonReport) : unusedBy exclusions reports =
    if reports = [] then [] else exclusions.toList.filter fun e => reports.all fun r => r.unused.contains e := by
  cases reports with
  | nil => rfl
  | cons first rest =>
    rw [if_neg (List.cons_ne_nil _ _)]
    rfl

/-- an exclusion that a report leaves unused is the key of nothing that was found -/
theorem contains_unused {b c : Listing} {e : Exclusion} (he : e ∈ exclusions.toList) :
    (b.compare c exclusions keep).unused.contains e = decide (∀ v ∈ (b.compare c .empty keep).violations, v.key ≠ e) := by
  rw [Bool.eq_iff_iff, List.contains_iff_mem, Comparison.unused_eq, List.mem_filter, and_iff_right he]

/-- **Unused exclusions.** Those that no single comparison has a use for; without comparisons there are none. -/
theorem unused_compareAll (places : List (List String)) :
    (compareAll baseline candidate places exclusions keep).unused =
      if places.filterMap (pair? baseline candidate) = [] then []
      else exclusions.toList.filter fun e => decide (∀ p ∈ places.filterMap (pair? baseline candidate),
        ∀ v ∈ (p.1.compare p.2 .empty keep).violations, v.key ≠ e) := by
  have hreports : ((places.map fun names =>
      (⟨names, comparePair baseline candidate exclusions keep names⟩ : PairResult)).filterMap fun r => r.outcome.report?) =
        (places.filterMap (pair? baseline candidate)).map fun p => p.1.compare p.2 exclusions keep := by
    rw [List.filterMap_map, List.map_filterMap]
    exact List.filterMap_congr fun names _ => report?_comparePair names
  unfold compareAll
  dsimp only
  rw [hreports, unusedBy_eq]
  simp only [List.map_eq_nil_iff]
  split
  · rfl
  · apply List.filter_congr
    intro e he
    rw [List.all_map, Bool.eq_iff_iff, List.all_eq_true, decide_eq_true_eq]
    refine forall_congr' fun p => forall_congr' fun _ => ?_
    rw [Function.comp_apply, contains_unused he, decide_eq_true_eq]

/-- **A batch is the sum of its comparisons.** There is one result for each place, in order. It tells of a missing candidate
when no file is at the place, of an error when one of the listings cannot be loaded, and else passes or fails with what the
single comparison finds. Every result counts once, a missing candidate as failed. Unused are, in the order of the set, the
exclusions that are the key of nothing found in any pair that was compared, and none when no pair was. -/
theorem compareAll_sum (baseline candidate : ListingDirectory) (places : List (List String)) (exclusions : ExclusionSet)
    (keep : DescriptorFilter) :
    let batch := compareAll baseline candidate places exclusions keep
    let pairs := places.filterMap (pair? baseline candidate)
    batch.results.map PairResult.names = places ∧
      (∀ r ∈ batch.results, Judged baseline candidate exclusions keep r) ∧
      (batch.total = batch.passed + batch.failed + batch.errors ∧
        batch.failed = batch.count .failed + batch.count .missing) ∧
      batch.unused = if pairs = [] then [] else exclusions.toList.filter fun e =>
        decide (∀ p ∈ pairs, ∀ v ∈ (p.1.compare p.2 .empty keep).violations, v.key ≠ e) := by
  intro batch pairs
  refine ⟨?_, fun r hr => ?_, ⟨length_eq_counts batch.results, rfl⟩, unused_compareAll places⟩
  · simp [batch, compareAll, Function.comp_def]
  · obtain ⟨names, -, rfl⟩ := List.mem_map.1 hr
    exact judged_comparePair names

/-- a listing of one interface -/
def listingOf (name : String) : Listing := ⟨"Shapes", [TypeDescriptor.ofInterface name]⟩

/-- a directory of listings: one stands further inside, and one breaks off -/
def earlier : ListingDirectory :=
  ⟨"earlier", .directory
    [("circles.json", .file (listingOf "ICircle").toJson.compact), ("lost.json", .file (listingOf "IShape").toJson.compact),
      ("more", .directory [("ellipses.json", .file (listingOf "IEllipse").toJson.compact)]), ("torn.json", .file "\x7b")]⟩

/-- the circles and the ellipses are shapes now, and a listing is gone -/
def later : ListingDirectory :=
  let shapes := FileTree.file (listingOf "IShape").toJson.compact
  ⟨"later", .directory
    [("circles.json", shapes), ("more", .directory [("ellipses.json", shapes)]), ("torn.json", shapes)]⟩

/-- all that may become of a place; the exclusion that only the listing without a partner could need is unused -/
theorem compareAll_sum_shapes :
    let places := [["torn.json"], ["circles.json"], ["lost.json"], ["more", "ellipses.json"]]
    let exclusions := ExclusionSet.ofList [⟨"public interface ICircle", none⟩, ⟨"public interface IShape", none⟩]
    let batch := compareAll earlier later places exclusions .keepAll
    batch.results.map PairResult.status = [.error, .passed, .missing, .failed] ∧
      (∀ r ∈ batch.results, Judged earlier later exclusions .keepAll r) ∧
      batch.unused = [⟨"public interface IShape", none⟩] := by
  intro places exclusions batch
  obtain ⟨-, hjudged, -, hunused⟩ := compareAll_sum earlier later places exclusions .keepAll
  exact ⟨by decide +kernel, hjudged, hunused.trans (by decide +kernel)⟩

end Batch

end ApiSurface
