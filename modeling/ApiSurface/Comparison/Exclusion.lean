/-
Exclusions: violations that were approved, known by the Ids of type and member whatever their kind. A set of them is
kept in order, without repetition.
-/
import ApiSurface.Comparison.Violation

namespace ApiSurface

open Json

/-- an approved violation -/
structure Exclusion where
  typeId : String
  /-- absent for a violation of the type itself -/
  memberId : Option String
deriving DecidableEq, Repr

/-- the exclusion that approves a violation -/
def Violation.key (v : Violation) : Exclusion := ⟨v.typeId, v.memberId⟩

namespace Exclusion

/-- by type, then by member, those of the type itself first -/
def order : Exclusion → Exclusion → Ordering := compareLex (compareOn typeId) (compareOn memberId)

instance : Std.TransCmp order := inferInstanceAs (Std.TransCmp (compareLex (compareOn typeId) (compareOn memberId)))

def toJson (e : Exclusion) : Json :=
  .object (member "TypeId" (.string e.typeId) ++ Json.optional "MemberId" .string e.memberId)

def fields : Fields Exclusion :=
  Fields.record Exclusion.mk
    |>.and (Fields.required "TypeId" Decoder.string)
    |>.and (Fields.optional "MemberId" Decoder.string)

/-- read an exclusion -/
def decoder : Decoder Exclusion := fields.decoder "struct Exclusion"

/-- put an exclusion at its place, unless it is there -/
def insertInto (e : Exclusion) : List Exclusion → List Exclusion
  | [] => [e]
  | x :: rest =>
    match order e x with
    | .lt => e :: x :: rest
    | .eq => x :: rest
    | .gt => x :: insertInto e rest

theorem mem_insertInto {e x : Exclusion} {entries : List Exclusion} (h : x ∈ insertInto e entries) :
    x = e ∨ x ∈ entries := by
  induction entries with
  | nil => exact Or.inl (List.mem_singleton.1 h)
  | cons y rest ih =>
    unfold insertInto at h
    split at h
    · exact List.mem_cons.1 h
    · exact Or.inr h
    · rcases List.mem_cons.1 h with h | h
      · exact Or.inr (List.mem_cons.2 (Or.inl h))
      · exact (ih h).imp_right (List.mem_cons_of_mem y)

theorem pairwise_insertInto {e : Exclusion} {entries : List Exclusion}
    (h : entries.Pairwise fun a b => order a b = .lt) :
    (insertInto e entries).Pairwise fun a b => order a b = .lt := by
  induction entries with
  | nil => exact List.pairwise_singleton _ _
  | cons x rest ih =>
    have hx := List.pairwise_cons.1 h
    unfold insertInto
    split
    · next hlt =>
      refine List.pairwise_cons.2 ⟨fun y hy => ?_, h⟩
      rcases List.mem_cons.1 hy with rfl | hy
      · exact hlt
      · exact Std.TransCmp.lt_trans hlt (hx.1 y hy)
    · exact h
    · next hgt =>
      refine List.pairwise_cons.2 ⟨fun y hy => ?_, ih hx.2⟩
      rcases mem_insertInto hy with rfl | hy
      · exact Std.OrientedCmp.gt_iff_lt.1 hgt
      · exact hx.1 y hy

end Exclusion

/-! ## Sets -/

/-- a set of exclusions -/
structure ExclusionSet where
  toList : List Exclusion
  ordered : toList.Pairwise fun a b => Exclusion.order a b = .lt
deriving DecidableEq

namespace ExclusionSet

/-- no exclusions -/
def empty : ExclusionSet := ⟨[], List.Pairwise.nil⟩

/-- add an exclusion -/
def insert (s : ExclusionSet) (e : Exclusion) : ExclusionSet :=
  ⟨e.insertInto s.toList, Exclusion.pairwise_insertInto s.ordered⟩

/-- the exclusions of a list -/
def ofList (entries : List Exclusion) : ExclusionSet := entries.foldl insert empty

/-- the number of exclusions -/
def size (s : ExclusionSet) : Nat := s.toList.length

/-- there are no exclusions -/
def isEmpty (s : ExclusionSet) : Bool := s.toList.isEmpty

/-- the exclusion is in the set -/
def has (s : ExclusionSet) (e : Exclusion) : Bool := s.toList.contains e

/-- the violation is approved -/
def approves (s : ExclusionSet) (v : Violation) : Bool := s.has v.key

def toJson (s : ExclusionSet) : Json := .array (s.toList.map Exclusion.toJson)

/-- read a set; repetitions do not matter -/
def decoder : Decoder ExclusionSet := fun source draft =>
  (Decoder.list Exclusion.decoder source draft).map ofList

end ExclusionSet

end ApiSurface
