/-
Comparing directories of listings. Each listing of the baseline directory is compared with the one at the same place in
the candidate directory; a listing without a partner, and one that cannot be loaded, count against the candidate. An
exclusion is unused if no pair that was compared has a use for it.
-/
import ApiSurface.Comparison.Basic
import ApiSurface.Files.Path
import ApiSurface.Listing.File

namespace ApiSurface

open Json

/-! ## Directories of listings -/

/-- a directory and the path that leads to it -/
structure ListingDirectory where
  path : String
  tree : FileTree

namespace ListingDirectory

/-- the ending of the names of listings -/
def ending : String := ".json"

/-- a file of the name holds a listing: something stands before the ending -/
def isListingName (name : String) : Bool :=
  ending.toList.isSuffixOf name.toList && decide (ending.length < name.length)

mutual

/-- the listings of a tree, as chains of names: by name at each level, those of a directory at its place -/
def listingsOf : FileTree → List (List String)
  | .directory entries =>
    ((listingsBelow entries).mergeSort fun a b => decide (a.1 ≤ b.1)).flatMap Prod.snd
  | _ => []

/-- the listings of each of some entries -/
def listingsBelow : List (String × FileTree) → List (String × List (List String))
  | [] => []
  | (name, .directory inner) :: rest =>
    (name, (listingsOf (.directory inner)).map fun names => name :: names) :: listingsBelow rest
  | (name, _) :: rest => (name, if isListingName name then [[name]] else []) :: listingsBelow rest

end

def listings (d : ListingDirectory) : List (List String) := listingsOf d.tree

def pathOf (d : ListingDirectory) (names : List String) : String := Path.inside d.path names

def load (d : ListingDirectory) (names : List String) : Except ListingFileFault Listing :=
  Listing.ofFile (d.tree.textAt names)

end ListingDirectory

/-! ## Pairs -/

inductive PairOutcome where
  | compared (report : ComparisonReport)
  /-- no candidate where it should be -/
  | missing (path : String)
  /-- one of the two could not be loaded -/
  | broken (path : String) (fault : ListingFileFault)
deriving DecidableEq, Repr

inductive PairStatus where
  | passed
  | failed
  | missing
  | error
deriving DecidableEq, Repr

def PairStatus.name : PairStatus → String
  | .passed => "passed"
  | .failed => "failed"
  | .missing => "missing"
  | .error => "error"

namespace PairOutcome

def status : PairOutcome → PairStatus
  | .compared report => if report.passed then .passed else .failed
  | .missing _ => .missing
  | .broken _ _ => .error

/-- the report of a pair that was compared -/
def report? : PairOutcome → Option ComparisonReport
  | .compared report => some report
  | _ => none

def violations (o : PairOutcome) : List Violation := (o.report?.map ComparisonReport.violations).getD []

def suppressed (o : PairOutcome) : Nat := (o.report?.map fun r => r.suppressed.length).getD 0

/-- why the pair was not compared -/
def problem? : PairOutcome → Option String
  | .compared _ => none
  | .missing path => some ("no candidate listing at " ++ path)
  | .broken path fault => some (fault.message path)

end PairOutcome

structure PairResult where
  /-- where the listings lie in their directories -/
  names : List String
  outcome : PairOutcome
deriving DecidableEq, Repr

namespace PairResult

def status (r : PairResult) : PairStatus := r.outcome.status

/-- the place as reports show it, with slashes only -/
def label (r : PairResult) : String :=
  String.ofList ((String.intercalate "/" r.names).toList.map fun c => if c = '\\' then '/' else c)

def toJson (r : PairResult) : Json :=
  .object (member "listing" (.string r.label) ++ member "status" (.string r.status.name) ++
    Json.list "violations" Violation.toJson r.outcome.violations ++
    member "suppressed" (.nat r.outcome.suppressed) ++ Json.optional "error" .string r.outcome.problem?)

end PairResult

/-! ## Batches -/

structure BatchReport where
  results : List PairResult
  /-- exclusions that no compared pair has a use for -/
  unused : List Exclusion
deriving DecidableEq, Repr

namespace BatchReport

def count (r : BatchReport) (status : PairStatus) : Nat := r.results.countP fun p => p.status == status

def total (r : BatchReport) : Nat := r.results.length

def passed (r : BatchReport) : Nat := r.count .passed

def failed (r : BatchReport) : Nat := r.count .failed + r.count .missing

def errors (r : BatchReport) : Nat := r.count .error

def toJson (r : BatchReport) : Json :=
  .object (member "total" (.nat r.total) ++ member "passed" (.nat r.passed) ++ member "failed" (.nat r.failed) ++
    member "errors" (.nat r.errors) ++ member "results" (.array (r.results.map PairResult.toJson)) ++
    Json.list "unused_exclusions" Exclusion.toJson r.unused)

end BatchReport

namespace Batch

/-- what becomes of the pair at a place -/
def comparePair (baseline candidate : ListingDirectory) (exclusions : ExclusionSet) (keep : DescriptorFilter)
    (names : List String) : PairOutcome :=
  if !candidate.tree.hasFile names then .missing (candidate.pathOf names)
  else
    match baseline.load names with
    | .error fault => .broken (baseline.pathOf names) fault
    | .ok b =>
      match candidate.load names with
      | .error fault => .broken (candidate.pathOf names) fault
      | .ok c => .compared (b.compare c exclusions keep)

/-- the exclusions that all of some reports leave unused; without reports there is nothing to tell -/
def unusedBy (exclusions : ExclusionSet) : List ComparisonReport → List Exclusion
  | [] => []
  | reports => exclusions.toList.filter fun e => reports.all fun r => r.unused.contains e

/-- compare the pairs at some places, in order -/
def compareAll (baseline candidate : ListingDirectory) (places : List (List String)) (exclusions : ExclusionSet)
    (keep : DescriptorFilter) : BatchReport :=
  let results := places.map fun names =>
    (⟨names, comparePair baseline candidate exclusions keep names⟩ : PairResult)
  ⟨results, unusedBy exclusions (results.filterMap fun r => r.outcome.report?)⟩

end Batch

end ApiSurface
