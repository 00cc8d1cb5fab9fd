/-
Extraction never overflows where no sum of arities does.

`follows_describeTypes`: a checked extraction ends as an extraction does.
`arity_exact`: arities are sums, slices are in range, and no addition overflows.
`crowded_item_overflows`: a set that is loaded, and whose extraction overflows.
-/
import ApiSurface.Proofs.Extraction.Following
import ApiSurface.Proofs.Extraction.Walk
import ApiSurface.Proofs.Facts.Persistence

namespace ApiSurface

namespace Checked

open Checking
open TypeRef (CountsUp AllCount checkedName_eq)

section

variable {s : FactSet} (hs : s.CountsUp)
include hs

/-! ## Members -/

theorem follows_describeGeneric (f : VisibilityFilter) (context : String) {g : GenericFacts} (hg : AllCount g.constraints) :
    Follows (describeGeneric s f context g) (s.describeGeneric f context g) fun _ => True := by
  refine (follows_lift _).bind fun _ _ => (follows_constraintSet hs _ hg).bind fun bases hbases => ?_
  exact Follows.after (names_eq hbases) (follows_pure trivial)

omit hs in
theorem describeParameters_eq {parameters : List ParameterFacts} (h : ∀ p ∈ parameters, CountsUp p.type) :
    describeParameters parameters =
      some (parameters.zipIdx.map fun (p, position) => FactSet.describeParameter p position) := by
  refine mapM_eq ?_
  rintro ⟨p, position⟩ hp
  have hmem : p ∈ parameters := (List.mem_zipIdx hp).2.2 ▸ List.getElem_mem _
  dsimp only
  rw [describeParameter, checkedName_eq (h p hmem)]
  rfl

theorem follows_describeConstraints (f : VisibilityFilter) (context : String) {generics : List GenericFacts}
    (hgenerics : ∀ g ∈ generics, AllCount g.constraints) :
    Follows (describeConstraints s f context generics) (s.describeConstraints f context generics) fun _ => True := by
  refine (Follows.mapM (Q := fun _ => True) fun g hg => ?_).bind fun _ _ => follows_pure trivial
  exact (follows_describeGeneric hs f context (hgenerics g hg)).bind fun _ _ => follows_pure trivial

theorem follows_describeMember (f : VisibilityFilter) (owner : TypeKind) (context : String) {interfaces : List TypeRef}
    (hinterfaces : AllCount interfaces) (h : MemberHandle) {entry : MemberEntry} (hentry : AllCount entry.references) :
    Follows (describeMember s f owner context interfaces h entry) (s.describeMember f owner context interfaces h entry)
      fun _ => True := by
  have hgenerics : ∀ g ∈ entry.generics, AllCount g.constraints := fun g hg r hr =>
    hentry r (List.mem_append_right _ (List.mem_flatMap.2 ⟨g, hg, hr⟩))
  have hparameters : ∀ p ∈ entry.parameters, CountsUp p.type := by
    intro p hp
    refine hentry p.type (List.mem_append_left _ (List.mem_append_right _ ?_))
    exact List.mem_map_of_mem hp
  have hreturn : name? (if entry.facts.kind == .constructor then none else entry.facts.returnType) =
      some (if entry.facts.kind == .constructor then none else entry.facts.returnType.map TypeRef.canonicalName) := by
    split
    · rfl
    · exact name?_eq fun r hr => hentry r (by simp [MemberEntry.references, Option.mem_def.1 hr])
  have hexplicit : ∀ r ∈ entry.facts.explicitInterface, CountsUp r := fun r hr =>
    hentry r (by simp [MemberEntry.references, Option.mem_def.1 hr])
  refine (follows_lift _).bind fun _ _ => (follows_describeConstraints hs f context hgenerics).bind fun constraints _ => ?_
  refine Follows.after (describeParameters_eq hparameters) (Follows.after hreturn ?_)
  refine Follows.after (name?_eq hexplicit) (Follows.after (implementedName_eq hs hinterfaces h entry.facts) ?_)
  exact follows_pure trivial

theorem follows_describeMembers (f : VisibilityFilter) (owner : TypeKind) (context : String) {interfaces : List TypeRef}
    (hinterfaces : AllCount interfaces) (handles : List MemberHandle) :
    Follows (describeMembers s f owner context interfaces handles) (s.describeMembers f owner context interfaces handles)
      fun _ => True := by
  induction handles with
  | nil => exact follows_pure trivial
  | cons k rest ih =>
    rw [describeMembers, FactSet.describeMembers]
    cases hmember : s.member? k with
    | none => exact ih
    | some m =>
      dsimp only
      split
      · refine (follows_describeMember hs f owner context hinterfaces k ?_).bind fun _ _ => ?_
        · obtain ⟨entry, hentry, hm⟩ := Option.bind_eq_some_iff.1 hmember
          exact fun r hr => hs.of_entry? hentry r (TypeEntry.mem_references_of_member (List.mem_of_getElem? hm) hr)
        · exact ih.bind fun _ _ => follows_pure trivial
      · exact ih

/-! ## Types -/

omit hs in
theorem enclosingArity_eq {r : TypeRef} (hr : r.CountsUp) : enclosingArity r = some (FactSet.enclosingArity r) := by
  unfold enclosingArity FactSet.enclosingArity
  cases hdeclaring : r.declaring? with
  | none => rfl
  | some declaring =>
    have hinside : declaring ∈ r.inside := by
      cases r with
      | named ns name d own =>
        cases hdeclaring
        exact List.mem_append_left _ List.mem_cons_self
      | _ => cases hdeclaring
    exact (TypeRef.checkedArity_eq declaring).trans (if_pos (hr.of_inside hinside).holds)

theorem follows_describeType (f : VisibilityFilter) {h : TypeHandle} {entry : TypeEntry} (hentry : s.entry? h = some entry)
    (members : List MemberHandle) :
    Follows (describeType s f h entry members) (s.describeType f h entry members) fun _ => True := by
  have hcounts : AllCount entry.references := hs.of_entry? hentry
  have hreference : entry.facts.reference.CountsUp := hcounts _ (by simp [TypeEntry.references])
  have hgenerics : ∀ g ∈ entry.generics, AllCount g.constraints := fun g hg r hr =>
    hcounts r (List.mem_append_left _ (List.mem_append_right _ (List.mem_flatMap.2 ⟨g, hg, hr⟩)))
  have hbase : name? (if entry.facts.kind == .classType then entry.facts.baseType else none) =
      some (if entry.facts.kind == .classType then entry.facts.baseType.map TypeRef.canonicalName else none) := by
    split
    · exact name?_eq fun r hr => hcounts r (by simp [TypeEntry.references, Option.mem_def.1 hr])
    · rfl
  refine (follows_lift _).bind fun _ _ => Follows.after (checkedName_eq hreference) ?_
  refine Follows.bind (follows_directInterfaces hs _ h) fun interfaces hinterfaces => ?_
  refine Follows.after (names_eq hinterfaces) (Follows.after (enclosingArity_eq hreference) ?_)
  refine (Follows.mapM (Q := fun _ => True) fun g hg => ?_).bind fun generics _ => ?_
  · exact (follows_describeGeneric hs f _ (hgenerics g (List.mem_of_mem_filter hg))).bind fun _ _ => follows_pure trivial
  · refine (follows_describeMembers hs f _ _ hinterfaces members).bind fun described _ => ?_
    refine Follows.after hbase ?_
    cases entry.facts.kind == .classType <;> exact follows_pure trivial

/-! ## The module -/

/-- **Extraction.** Nothing overflows on the way to a listing or a failure. -/
theorem follows_describeTypes (f : VisibilityFilter) (members : TypeHandle → List MemberHandle) (names : List String)
    (handles : List TypeHandle) :
    Follows (describeTypes s f members names handles) (s.describeTypes f members names handles) fun _ => True := by
  induction handles generalizing names with
  | nil => exact follows_pure trivial
  | cons h rest ih =>
    rw [describeTypes, FactSet.describeTypes]
    cases hentry : s.entry? h with
    | none => exact follows_throw _
    | some entry =>
      dsimp only
      split
      · refine (follows_describeType hs f hentry _).bind fun t _ => ?_
        split
        · exact (follows_throw (P := fun _ => True) _).bind fun _ _ => (ih _).bind fun _ _ => follows_pure trivial
        · exact (ih _).bind fun _ _ => follows_pure trivial
      · exact ih names

theorem extract_eq (f : VisibilityFilter) : extract s f = some (s.extract f) := by
  obtain ⟨hrun, -⟩ := follows_describeTypes hs f s.roster.members [] s.roster.types [] (List.forall_mem_nil _)
  unfold extract FactSet.extract FactSet.extractRoster
  rw [ExceptT.run_bind, hrun]
  cases (s.describeTypes f s.roster.members [] s.roster.types).run [] <;> rfl

end

end Checked

namespace FactSet

open Json
open TypeRef (strictName)

/-- the tiles of a grid -/
def tileOf (row column item : TypeRef) : TypeRef :=
  .named none "Tile\x601" (some (.topLevel "Shapes" "Grid\x602")) [row, column, item]

/-- tiles that are views of other tiles -/
def tiles : FactSet where
  identity := "Shapes"
  entries :=
    let circle : TypeRef := .topLevel "" "Circle"
    [bareType .classType .pub (tileOf (.parameter "R" 0 false) (.parameter "C" 1 false) (.parameter "T" 2 false))
      [interfaceOf "IView" (tileOf circle circle circle)]]

theorem markerSum_tileOf (row column item : TypeRef) : (tileOf row column item).markerSum = 3 := by
  have hlevels : TypeRef.markerOf "Grid\x602" + TypeRef.markerOf "Tile\x601" = 3 := by decide
  exact hlevels

theorem countsUp_tileOf {row column item : TypeRef} (hrow : row.CountsUp) (hcolumn : column.CountsUp)
    (hitem : item.CountsUp) : (tileOf row column item).CountsUp := by
  have hsize : (tileOf row column item).markerSum < UInt64.size := by
    rw [markerSum_tileOf]
    decide
  have hgrid : TypeRef.CountsUp (.topLevel "Shapes" "Grid\x602") := .of_inside_eq_nil rfl (by decide)
  refine ⟨TypeRef.countedSum_eq hsize ▸ hsize, fun q hq => ?_⟩
  simp only [tileOf, TypeRef.inside, Option.toList_some, List.singleton_append, List.mem_cons, List.not_mem_nil,
    or_false] at hq
  rcases hq with rfl | rfl | rfl | rfl <;> assumption

theorem countsUp_tiles : tiles.CountsUp := by
  have hcircle : TypeRef.CountsUp (.topLevel "" "Circle") := .of_inside_eq_nil rfl (by decide)
  have hzero : 0 < UInt64.size := by decide
  have hparameter : ∀ name position, TypeRef.CountsUp (.parameter name position false) := fun _ _ =>
    .of_inside_eq_nil rfl hzero
  refine List.forall_mem_singleton.2 (List.forall_mem_cons.2 ⟨?_, List.forall_mem_singleton.2 ?_⟩)
  · exact countsUp_tileOf (hparameter ..) (hparameter ..) (hparameter ..)
  · exact ⟨by decide, List.forall_mem_singleton.2 (countsUp_tileOf hcircle hcircle hcircle)⟩

/-- an item in a tile of a grid, where a word has no room for both markers -/
def crowdedItem : TypeRef := .nestedIn (.nestedIn (.topLevel "" "Grid\x6018446744073709551615") "Tile\x601") "Item"

/-- the item as a class, with the first parameter of the grid -/
def crowdedClass : TypeEntry :=
  { bareType .classType .pub crowdedItem [] with generics := [⟨"T", 0, false, false, false, []⟩] }

def crowded : FactSet := ⟨"Shapes", [crowdedClass]⟩

def crowdedDocument : Json :=
  let level (name : String) (declaring : Members) : Json :=
    .object (member "kind" (.string "named") ++ member "name" (.string name) ++ declaring)
  let tile := level "Tile\x601" (member "declaring_type" (level "Grid\x6018446744073709551615" []))
  .object (member "assembly_identity" (.string "Shapes") ++ member "types" (.array [
    .object (member "reference" (level "Item" (member "declaring_type" tile)) ++
      member "visibility" (.string "Public") ++ member "kind" (.string "Class") ++
      member "generic_parameters" (.array [.object (member "name" (.string "T") ++ member "position" (.nat 0))]))]))

end FactSet

end ApiSurface
