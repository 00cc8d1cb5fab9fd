/-
Files of exclusions: an array of approved violations. Blank Ids and repetitions are mistakes, and the first one is
reported; an exclusion of a type leaves the member's Id out.
-/
import ApiSurface.Comparison.Exclusion
import ApiSurface.Files.Basic
import ApiSurface.Text.Blank

namespace ApiSurface

inductive ExclusionFault where
  | unreadable (fault : FileFault)
  | malformed (problem : Json.Problem)
  | emptyTypeId (index : Nat)
  | emptyMemberId (index : Nat)
  | duplicate (index : Nat)
deriving DecidableEq, Repr

namespace ExclusionFault

/-- an entry of a file, as messages name it -/
def entry (index : Nat) (path : String) : String := "exclusion #" ++ index.repr ++ " in " ++ path

def message (path : String) : ExclusionFault → String
  | .unreadable fault => "failed to read exclusions file " ++ path ++ ": " ++ fault.message
  | .malformed problem => "malformed exclusions file " ++ path ++ ": " ++ problem.message
  | .emptyTypeId index => entry index path ++ " has an empty TypeId"
  | .emptyMemberId index =>
    entry index path ++ " has an empty MemberId (omit it to exclude a type-level violation)"
  | .duplicate index => entry index path ++ " duplicates an earlier entry"

/-- the wording of what lies behind a fault, if anything does -/
def cause? : ExclusionFault → Option String
  | .unreadable fault => some fault.message
  | .malformed problem => some problem.message
  | _ => none

end ExclusionFault

namespace ExclusionSet

/-- check entries from an index on, given those before -/
def checkEntries : List Exclusion → Nat → List Exclusion → Except ExclusionFault Unit
  | _, _, [] => .ok ()
  | seen, index, e :: rest =>
    if Text.isAllBlank e.typeId then .error (.emptyTypeId index)
    else if e.memberId.any Text.isAllBlank then .error (.emptyMemberId index)
    else if seen.contains e then .error (.duplicate index)
    else checkEntries (e :: seen) (index + 1) rest

def ofEntries (entries : List Exclusion) : Except ExclusionFault ExclusionSet :=
  (checkEntries [] 0 entries).map fun _ => ofList entries

def ofText (text : String) : Except ExclusionFault ExclusionSet := do
  let entries ← (Json.read (Json.Decoder.list Exclusion.decoder) text).mapError .malformed
  ofEntries entries

end ExclusionSet

end ApiSurface
