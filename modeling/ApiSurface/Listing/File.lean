/-
Files that hold a listing, or facts to extract one from.
-/
import ApiSurface.Extraction.Basic
import ApiSurface.Files.Basic
import ApiSurface.Listing.Validation

namespace ApiSurface

/-! ## Listings -/

/-- why there is no listing in a file -/
inductive ListingFileFault where
  | unreadable (fault : FileFault)
  | invalid (fault : SchemaFault)
deriving DecidableEq, Repr

/-- the wording of a fault with all that lies behind it -/
def SchemaFault.fullMessage : SchemaFault → String
  | .document problem => (SchemaFault.document problem).message ++ ": " ++ problem.message
  | fault => fault.message

def ListingFileFault.message (path : String) : ListingFileFault → String
  | .unreadable fault => "Failed to read listing: " ++ path ++ ": " ++ fault.message
  | .invalid fault => "Invalid listing: " ++ path ++ ": " ++ fault.fullMessage

/-- the listing in a file -/
def Listing.ofFile (content : Except FileFault String) : Except ListingFileFault Listing := do
  let text ← content.mapError .unreadable
  (Listing.load text).mapError .invalid

/-! ## Facts -/

/-- why no listing comes from a file of facts -/
inductive FactFileFault where
  | unreadable (fault : FileFault)
  | invalid (problem : Json.Problem)
  | notExtracted (fault : ExtractionFault)
deriving DecidableEq, Repr

def FactFileFault.message (path : String) : FactFileFault → String
  | .unreadable fault => "Failed to read fact set: " ++ path ++ ": " ++ fault.message
  | .invalid problem => "Invalid fact set: " ++ path ++ ": " ++ problem.message
  | .notExtracted fault => "Extraction failed: " ++ path ++ ": " ++ fault.message

/-- the listing of the facts in a file -/
def Listing.ofFactFile (f : VisibilityFilter) (content : Except FileFault String) :
    Except FactFileFault Listing := do
  let text ← content.mapError .unreadable
  let facts ← (FactSet.load text).mapError .invalid
  (facts.extract f).mapError .notExtracted

end ApiSurface
