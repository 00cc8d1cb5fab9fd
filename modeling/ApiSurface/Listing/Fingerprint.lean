/-
Fingerprints: the hash of the canonical text, the same for equal listings and no others short of a collision.
-/
import ApiSurface.Hash.Blake3
import ApiSurface.Listing.Basic

namespace ApiSurface.Listing

def canonicalText (l : Listing) : String := l.toJson.canonical

/-- the hash that identifies a listing, in 64 hexadecimal digits -/
def fingerprint (l : Listing) : String := Blake3.hashText l.canonicalText

end ApiSurface.Listing
