/-
Listings: the exported types of one module. Types and members are compared and sorted by Id, and a listing is written
in the order it has.
-/
import ApiSurface.Descriptor.Type

namespace ApiSurface

open Json

structure Listing where
  identity : String
  types : List TypeDescriptor
deriving DecidableEq, Repr

namespace Listing

/-! ## Contents -/

def find? (l : Listing) (name : String) : Option TypeDescriptor := l.types.find? fun t => t.name == name

def memberCount (l : Listing) : Nat := (l.types.flatMap fun t => t.members).length

def add (l : Listing) (t : TypeDescriptor) : Listing := { l with types := l.types ++ [t] }

/-! ## Order -/

/-- sort members by Id; those of equal Ids keep their order -/
def sortMembers (members : List MemberDescriptor) : List MemberDescriptor :=
  members.mergeSort fun a b => decide (a.id ≤ b.id)

/-- sort types by Id; those of equal Ids keep their order -/
def sortTypes (types : List TypeDescriptor) : List TypeDescriptor :=
  types.mergeSort fun a b => decide (a.id ≤ b.id)

def sort (l : Listing) : Listing :=
  { l with types := sortTypes (l.types.map fun t => { t with members := sortMembers t.members }) }

/-! ## Documents -/

def toJson (l : Listing) : Json :=
  .object (member "AssemblyIdentity" (.string l.identity) ++ Json.list "Types" TypeDescriptor.toJson l.types)

def fields : Fields Listing :=
  Fields.record Listing.mk
    |>.and (Fields.required "AssemblyIdentity" Decoder.string)
    |>.and (Fields.list "Types" TypeDescriptor.decoder)

def decoder : Decoder Listing := fields.decoder "struct Listing"

end Listing

end ApiSurface
