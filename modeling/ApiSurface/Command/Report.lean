/-
What the commands print. Lines about violations begin with `error : ` and lines about unused exclusions with
`warning : `, so that other programs can find them.
-/
import ApiSurface.Batch.Basic
import ApiSurface.Listing.Fingerprint

namespace ApiSurface.Report

open Json

/-! ## Lines -/

/-- lines as text, each with its end -/
def ofLines (lines : List String) : String := String.join (lines.map fun line => line ++ "\n")

def ofJson (value : Json) : String := value.pretty ++ "\n"

/-- what begins the line of an error -/
def errorMark : String := "error : "

/-- what begins the line of a warning -/
def warningMark : String := "warning : "

def violationLine (v : Violation) : String := errorMark ++ v.line

/-- the line of a violation of one of several pairs -/
def originLine (origin : String) (v : Violation) : String := errorMark ++ origin ++ ": " ++ v.line

def exclusionLine (e : Exclusion) : String :=
  warningMark ++ "exclusion matched no violation: TypeId `" ++ e.typeId ++ "`" ++
    match e.memberId with
    | some memberId => ", MemberId `" ++ memberId ++ "`"
    | none => ""

def sizeText (l : Listing) : String := l.types.length.repr ++ " types, " ++ l.memberCount.repr ++ " members"

/-! ## Extracting -/

def extractionLines (l : Listing) : List String :=
  ["Extracted " ++ sizeText l ++ " from " ++ l.identity,
    "Fingerprint: " ++ String.ofList (l.fingerprint.toList.take 16)]

def writtenLine (path : String) : String := "Written to: " ++ path

/-! ## Validating -/

def validationJson (path : String) : Except SchemaFault Listing → Json
  | .ok l =>
    .object (member "valid" (.bool true) ++ member "path" (.string path) ++
      member "assembly_identity" (.string l.identity) ++ member "types" (.nat l.types.length) ++
      member "members" (.nat l.memberCount) ++ member "fingerprint" (.string l.fingerprint))
  | .error fault =>
    .object (member "valid" (.bool false) ++ member "path" (.string path) ++
      member "error" (.string fault.message))

def validationLines (path : String) : Except SchemaFault Listing → List String
  | .ok l =>
    ["Validating: " ++ path, "  Assembly: " ++ l.identity, "  Surface: " ++ sizeText l,
      "  Fingerprint: " ++ l.fingerprint, "", "SUCCESS Listing is valid"]
  | .error fault => ["Validating: " ++ path, errorMark ++ fault.message, "", "FAILED Listing is invalid"]

/-! ## Comparing -/

/-- the word for a verdict -/
def verdict (failed : Bool) : String := if failed then "FAILED" else "PASSED"

/-- a listing and the path that it was loaded from -/
structure Loaded where
  path : String
  listing : Listing

def comparisonJson (baseline candidate : Loaded) (report : ComparisonReport) (failed : Bool) : Json :=
  .object (member "passed" (.bool !failed) ++ member "baseline" (.string baseline.path) ++
    member "baseline_fingerprint" (.string baseline.listing.fingerprint) ++
    member "candidate" (.string candidate.path) ++
    member "candidate_fingerprint" (.string candidate.listing.fingerprint) ++ report.members)

def comparisonLines (baseline candidate : Loaded) (report : ComparisonReport) (failed : Bool) : List String :=
  ["Comparing listings:", "  Baseline: " ++ baseline.listing.identity,
    "  Candidate: " ++ candidate.listing.identity, ""] ++
  report.violations.map violationLine ++ report.unused.map exclusionLine ++
  ["", verdict failed ++ " " ++ report.violations.length.repr ++ " violation(s), " ++
    report.suppressed.length.repr ++ " suppressed, " ++ report.unused.length.repr ++ " unused exclusion(s)"]

/-! ## Batches -/

def statusMark : PairStatus → String
  | .passed => "✓ PASS"
  | .failed => "✗ FAIL"
  | .missing => "✗ MISSING"
  | .error => "✗ ERROR"

/-- the lines for a pair, given its place among all -/
def pairLines (total index : Nat) (r : PairResult) : List String :=
  ["", "[" ++ (index + 1).repr ++ "/" ++ total.repr ++ "] " ++ r.label ++ " " ++ statusMark r.status] ++
  r.outcome.violations.map (originLine r.label) ++
  (r.outcome.problem?.map fun problem => errorMark ++ r.label ++ ": " ++ problem).toList

/-- the unused exclusions of a batch after a blank line, if there are any -/
def staleLines (unused : List Exclusion) : List String :=
  if unused.isEmpty then [] else "" :: unused.map exclusionLine

/-- tenths of a second as seconds -/
def seconds (tenths : Nat) : String := (tenths / 10).repr ++ "." ++ (tenths % 10).repr ++ "s"

/-- the lines for a batch that took some tenths of a second -/
def batchLines (tenths : Nat) (r : BatchReport) : List String :=
  ["Comparing " ++ r.total.repr ++ " listings..."] ++
  (r.results.zipIdx.flatMap fun (result, index) => pairLines r.total index result) ++
  staleLines r.unused ++
  ["", String.ofList (List.replicate 60 '='), "Batch Comparison Summary • " ++ seconds tenths ++ " total",
    "  Total:  " ++ r.total.repr, "  Passed: " ++ r.passed.repr, "  Failed: " ++ r.failed.repr,
    "  Errors: " ++ r.errors.repr]

end ApiSurface.Report
