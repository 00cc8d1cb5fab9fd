import ApiSurface.TypeRef.Name
import ApiSurface.TypeRef.Document
import ApiSurface.Literal
import ApiSurface.Descriptor.View
import ApiSurface.Listing.Validation
import ApiSurface.Listing.Fingerprint
import ApiSurface.Extraction.Basic
import ApiSurface.Comparison.Basic
import ApiSurface.Comparison.ExclusionFile
import ApiSurface.Determinism
import ApiSurface.Text.Blank
import ApiSurface.Batch.Basic
import ApiSurface.Main
import ApiSurface.Proofs.Comparison.Exactness
import ApiSurface.Proofs.Descriptor.TypeId
import ApiSurface.Proofs.Descriptor.MemberId
import ApiSurface.Proofs.Extraction.Validity
import ApiSurface.Proofs.Comparison.Approval
import ApiSurface.Proofs.Comparison.Compatibility
import ApiSurface.Proofs.TypeRef.Arity
import ApiSurface.Proofs.TypeRef.WellFormed
import ApiSurface.Proofs.TypeRef.NameTree
import ApiSurface.Proofs.TypeRef.CanonicalName
import ApiSurface.Proofs.Comparison.Reordering
import ApiSurface.Proofs.Interfaces.Lineage
import ApiSurface.Proofs.Interfaces.Cache
import ApiSurface.Proofs.Interfaces.Firsts
import ApiSurface.Proofs.TypeRef.Substitution
import ApiSurface.Proofs.Interfaces.Brought
import ApiSurface.Proofs.Interfaces.Rerouting
import ApiSurface.Proofs.Interfaces.Generating
import ApiSurface.Proofs.AnyOrder
import ApiSurface.Proofs.Facts.Reordering
import ApiSurface.Proofs.Interfaces.Slots
import ApiSurface.Proofs.Interfaces.Reordering
import ApiSurface.Proofs.Extraction.TwoRuns
import ApiSurface.Proofs.Extraction.Reordering
import ApiSurface.Proofs.Listing.Sorting
import ApiSurface.Proofs.Interfaces.Shared
import ApiSurface.Proofs.Interfaces.Constraints
import ApiSurface.Proofs.Interfaces.Depth
import ApiSurface.Proofs.Extraction.Hidden
import ApiSurface.Proofs.Extraction.Success
import ApiSurface.Proofs.Interfaces.Settled
import ApiSurface.Proofs.Facts.Growth
import ApiSurface.Proofs.Interfaces.Growth
import ApiSurface.Proofs.Interfaces.Runs
import ApiSurface.Proofs.Extraction.Growth
import ApiSurface.Proofs.Extraction.Ending
import ApiSurface.Proofs.Extraction.Widening
import ApiSurface.Proofs.Extraction.Enclosing
import ApiSurface.Proofs.Interfaces.Inherited
import ApiSurface.Proofs.Json.Canonical
import ApiSurface.Proofs.Listing.Fingerprint
import ApiSurface.Proofs.Json.Nesting
import ApiSurface.Proofs.Json.Sums
import ApiSurface.Proofs.Facts.Document
import ApiSurface.Proofs.Facts.Persistence
import ApiSurface.Proofs.TypeRef.Counting
import ApiSurface.Proofs.Extraction.Checked
import ApiSurface.Proofs.Extraction.Overflow
import ApiSurface.Proofs.Comparison.Additions
import ApiSurface.Proofs.Comparison.Pruning
import ApiSurface.Proofs.Interfaces.Requirements
import ApiSurface.Proofs.Batch.Sum
import ApiSurface.Proofs.Extraction.OwnParameters
import ApiSurface.Proofs.Descriptor.Values
import ApiSurface.Proofs.TypeRef.Namespace
import ApiSurface.Proofs.Listing.Breaches
import ApiSurface.Proofs.Listing.SortedForm
import ApiSurface.Proofs.Comparison.ExclusionFile
import ApiSurface.Proofs.Determinism
