/-
The commands of the program, and how the words of a command line name them.
-/
import ApiSurface.Command.Arguments

namespace ApiSurface

open Arguments

/-! ## Commands -/

structure ExtractCommand where
  facts : String
  /-- where the listing is written, if not to the standard output -/
  output : Option String
  includeInternal : Bool
deriving DecidableEq, Repr

structure ValidateCommand where
  listing : String
  json : Bool
deriving DecidableEq, Repr

structure CompareCommand where
  baseline : String
  candidate : String
  /-- the candidate is a file of facts -/
  candidateFacts : Bool
  exclusions : Option String
  excludedNamespaces : List String
  /-- unused exclusions count as failures -/
  strictExclusions : Bool
  json : Bool
deriving DecidableEq, Repr

structure BatchCommand where
  baseline : String
  candidate : String
  exclusions : Option String
  excludedNamespaces : List String
  json : Bool
deriving DecidableEq, Repr

inductive Command where
  | extract (command : ExtractCommand)
  | validate (command : ValidateCommand)
  | compare (command : CompareCommand)
  | batch (command : BatchCommand)
deriving DecidableEq, Repr

namespace Command

/-! ## Switches -/

def program : String := "apicompat"

def version : String := "0.1.0"

/-- the switches that every command has; a log asked for has no lines -/
def common (title : String) : List Switch :=
  [⟨"verbose", some 'v', .flag⟩, ⟨"help", some 'h', .ending .help⟩, ⟨"version", some 'V', .ending (.version title)⟩]

/-- the switches for what a comparison leaves out -/
def exclusionSwitches : List Switch :=
  [⟨"exclusions", some 'e', .value⟩, ⟨"exclude-namespace", none, .values⟩]

def extractSwitches : List Switch :=
  [⟨"facts", some 'f', .value⟩, ⟨"output", some 'o', .value⟩, ⟨"include-internal", none, .flag⟩]

def validateSwitches : List Switch := [⟨"listing", some 'l', .value⟩, ⟨"json", none, .flag⟩]

def compareSwitches : List Switch :=
  [⟨"baseline", some 'b', .value⟩, ⟨"candidate", some 'c', .value⟩, ⟨"candidate-facts", none, .flag⟩,
    ⟨"strict-exclusions", none, .flag⟩, ⟨"json", none, .flag⟩] ++ exclusionSwitches

def batchSwitches : List Switch :=
  [⟨"baseline-dir", none, .value⟩, ⟨"candidate-dir", none, .value⟩, ⟨"json", none, .flag⟩] ++ exclusionSwitches

/-! ## Commands from settings -/

def ofExtractSettings (s : List Setting) : Except Stop Command := do
  return .extract ⟨← required s "facts", value? s "output", has s "include-internal"⟩

def ofValidateSettings (s : List Setting) : Except Stop Command := do
  return .validate ⟨← required s "listing", has s "json"⟩

def ofCompareSettings (s : List Setting) : Except Stop Command := do
  return .compare ⟨← required s "baseline", ← required s "candidate", has s "candidate-facts",
    value? s "exclusions", values s "exclude-namespace", has s "strict-exclusions", has s "json"⟩

def ofBatchSettings (s : List Setting) : Except Stop Command := do
  return .batch ⟨← required s "baseline-dir", ← required s "candidate-dir", value? s "exclusions",
    values s "exclude-namespace", has s "json"⟩

/-- the names of the commands, with their switches -/
def known : List (String × List Switch × (List Setting → Except Stop Command)) :=
  [("extract", extractSwitches, ofExtractSettings), ("validate", validateSwitches, ofValidateSettings),
    ("compare", compareSwitches, ofCompareSettings), ("batch", batchSwitches, ofBatchSettings)]

/-- the words after `help` name a command or nothing -/
def isHelpTopic : List String → Bool
  | [] => true
  | [name] => name == "help" || (known.lookup name).isSome
  | _ => false

/-- the command that words name -/
def ofWords (words : List String) : Except Stop Command := do
  let (_, rest) ← readSwitches (common program) [] words
  match rest with
  | [] => throw .usage
  | name :: rest =>
    if name = "help" then throw (if isHelpTopic rest then .help else .usage)
    match known.lookup name with
    | none => throw .usage
    | some (switches, build) =>
      let (settings, rest) ← readSwitches (common (program ++ "-" ++ name) ++ switches) [] rest
      if rest = [] ∨ rest = ["--"] then build settings else throw .usage

end Command

end ApiSurface
