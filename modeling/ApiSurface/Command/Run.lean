/-
Running commands. A command ends with the exit code 0 when all is well, 1 when a listing is invalid or a comparison fails,
and 2 when there is nothing to judge.
-/
import ApiSurface.Command.Basic
import ApiSurface.Command.Report
import ApiSurface.Comparison.ExclusionFile
import ApiSurface.Files.Host

namespace ApiSurface

/-! ## Failures -/

/-- why a command ends without a verdict -/
inductive Failure where
  | listing (path : String) (fault : ListingFileFault)
  | facts (path : String) (fault : FactFileFault)
  | exclusions (path : String) (fault : ExclusionFault)
  | baselineDirectory (path : String)
  | candidateDirectory (path : String)
  | output (fault : WriteFault)
deriving DecidableEq, Repr

/-- the wording of a failure, with all that lies behind it -/
def Failure.message : Failure → String
  | .listing path fault => fault.message path
  | .facts path fault => fault.message path
  | .exclusions path fault =>
    fault.message path ++
      match fault.cause? with
      | some cause => ": " ++ cause
      | none => ""
  | .baselineDirectory path => "Baseline directory not found: " ++ path
  | .candidateDirectory path => "Candidate directory not found: " ++ path
  | .output fault => fault.message

/-! ## Outcomes -/

/-- what a command leaves behind -/
structure Outcome where
  exitCode : UInt8
  /-- the text on the standard output -/
  output : String
  /-- the text on the standard error -/
  errors : String
deriving DecidableEq, Repr

namespace Outcome

/-- a verdict with its report -/
def ofVerdict (failed : Bool) (output : String) : Outcome := ⟨if failed then 1 else 0, output, ""⟩

def ofFailure (failure : Failure) : Outcome := ⟨2, "", Report.ofLines ["error: " ++ failure.message]⟩

def usage : String :=
  Report.ofLines
    ["Usage: " ++ Command.program ++ " <command>", "",
      "  extract --facts <file> [--output <file>] [--include-internal]",
      "  validate --listing <file> [--json]",
      "  compare --baseline <file> --candidate <file> [--candidate-facts] [--exclusions <file>]",
      "    [--exclude-namespace <namespace>]... [--strict-exclusions] [--json]",
      "  batch --baseline-dir <directory> --candidate-dir <directory> [--exclusions <file>]",
      "    [--exclude-namespace <namespace>]... [--json]"]

/-- words that name no command -/
def ofStop : Arguments.Stop → Outcome
  | .usage => ⟨2, "", usage⟩
  | .version program => ⟨0, Report.ofLines [program ++ " " ++ Command.version], ""⟩
  | .help => ⟨0, usage, ""⟩

end Outcome

/-! ## Commands -/

/-- a computation on a host that may fail -/
abbrev Running (m : Type → Type) (α : Type) := ExceptT Failure m α

namespace Command

variable {m : Type → Type} [Monad m] (host : Host m)

/-- a result, or the failure for its fault -/
def orFail {ε α : Type} (failure : ε → Failure) (result : Except ε α) : Running m α :=
  ExceptT.mk (pure (result.mapError failure))

def loadListing (path : String) : Running m Listing := do
  orFail (.listing path) (Listing.ofFile (← host.read path))

/-- extract a listing from a file of facts -/
def loadFacts (f : VisibilityFilter) (path : String) : Running m Listing := do
  orFail (.facts path) (Listing.ofFactFile f (← host.read path))

/-- load exclusions, none without a path -/
def loadExclusions : Option String → Running m ExclusionSet
  | none => pure .empty
  | some path => do
    let text ← orFail (fun fault => .exclusions path (.unreadable fault)) (← host.read path)
    orFail (.exclusions path) (ExclusionSet.ofText text)

/-- a directory of listings, or the failure when there is none -/
def findDirectory (failure : Failure) (path : String) : Running m ListingDirectory := do
  match ← host.look path with
  | .ok (.directory entries) => return ⟨path, .directory entries⟩
  | _ => throw failure

def runExtract (c : ExtractCommand) : Running m Outcome := do
  let f := if c.includeInternal then VisibilityFilter.includingInternal else VisibilityFilter.standard
  let listing ← loadFacts host f c.facts
  let text := Report.ofJson listing.toJson
  let summary := Report.extractionLines listing
  match c.output with
  | none => return ⟨0, text, Report.ofLines summary⟩
  | some path =>
    orFail .output (← host.write path text)
    return ⟨0, Report.ofLines (summary ++ [Report.writtenLine path]), ""⟩

def runValidate (c : ValidateCommand) : Running m Outcome := do
  let text ← orFail (fun fault => .listing c.listing (.unreadable fault)) (← host.read c.listing)
  let result := Listing.load text
  let report :=
    if c.json then Report.ofJson (Report.validationJson c.listing result)
    else Report.ofLines (Report.validationLines c.listing result)
  return .ofVerdict (!result.toBool) report

def runCompare (c : CompareCommand) : Running m Outcome := do
  let baseline ← loadListing host c.baseline
  let candidate ←
    if c.candidateFacts then loadFacts host .standard c.candidate else loadListing host c.candidate
  let exclusions ← loadExclusions host c.exclusions
  let report := baseline.compare candidate exclusions (.excludeNamespaces c.excludedNamespaces)
  let failed := report.isFailure c.strictExclusions
  let b : Report.Loaded := ⟨c.baseline, baseline⟩
  let d : Report.Loaded := ⟨c.candidate, candidate⟩
  return .ofVerdict failed
    (if c.json then Report.ofJson (Report.comparisonJson b d report failed)
      else Report.ofLines (Report.comparisonLines b d report failed))

def batchExitCode (r : BatchReport) : UInt8 := if 0 < r.errors then 2 else if 0 < r.failed then 1 else 0

def runBatch (c : BatchCommand) : Running m Outcome := do
  let baseline ← findDirectory host (.baselineDirectory c.baseline) c.baseline
  let candidate ← findDirectory host (.candidateDirectory c.candidate) c.candidate
  let exclusions ← loadExclusions host c.exclusions
  let places := baseline.listings
  if places.isEmpty then
    return ⟨0, if c.json then "" else Report.ofLines ["No listings found in: " ++ c.baseline], ""⟩
  let report := Batch.compareAll baseline candidate places exclusions (.excludeNamespaces c.excludedNamespaces)
  let tenths ← host.elapsed
  let text := if c.json then Report.ofJson report.toJson else Report.ofLines (Report.batchLines tenths report)
  return ⟨batchExitCode report, text, ""⟩

def run (c : Command) : m Outcome := do
  let result ← ExceptT.run <|
    match c with
    | .extract c => runExtract host c
    | .validate c => runValidate host c
    | .compare c => runCompare host c
    | .batch c => runBatch host c
  match result with
  | .ok outcome => return outcome
  | .error failure => return .ofFailure failure

/-- run the command that words name -/
def runWords (words : List String) : m Outcome :=
  match ofWords words with
  | .error stop => pure (.ofStop stop)
  | .ok command => run host command

end Command

end ApiSurface
