/-
The listing does not depend on the order of the facts.

`agree_describeMember`, `agree_describeType`: what is listed of a member and of a type.
`extract_verdicts`: whether there is a listing, and which, up to the order of types and members of equal Ids.
`extract_reordered`: the same listing when no Id comes twice.
-/
import ApiSurface.Proofs.Extraction.Walk

namespace ApiSurface.FactSet

open Extracting

variable {s s' : FactSet} {hs : s.Acyclic} {hs' : s'.Acyclic}

theorem agree_checked (names : List String) {ts ts' : List TypeDescriptor} (h : AnyOrder TypeDescriptor.Reordered ts ts') :
    Agree hs hs' (AnyOrder TypeDescriptor.Reordered) (checked names ts) (checked names ts') := by
  have hnames : (ts.map TypeDescriptor.name).Perm (ts'.map TypeDescriptor.name) :=
    h.perm_map fun t _ u _ htu => htu.name_eq.symm
  have hnew : ((∀ t ∈ ts, t.name ∉ names) ↔ ∀ t ∈ ts', t.name ∉ names) := by
    have hmem : (∀ name ∈ ts.map TypeDescriptor.name, name ∉ names) ↔ ∀ name ∈ ts'.map TypeDescriptor.name, name ∉ names :=
      forall_congr' fun name => by rw [hnames.mem_iff]
    simpa using hmem
  unfold checked
  simp only [hnames.nodup_iff, hnew]
  split
  · exact agree_pure h
  · exact agree_throw _ _

section

variable (hr : s.Reordered s') (hkeys : s.DistinctKeys) (f : VisibilityFilter)
include hr hkeys

/-! ## What is exported -/

theorem isExported_reordered : s.isExported f = s'.isExported f := by
  funext facts
  exact isExported_congr (fun r => by rw [definition?_reordered hr hkeys]) rfl

theorem isVisible_reordered : s.isVisible f = s'.isVisible f :=
  isVisible_congr f fun r => by rw [definition?_reordered hr hkeys]

/-! ## Members -/

theorem agree_describeGeneric (context : String) (g : GenericFacts) :
    Agree hs hs' (fun a b => a = b) (s.describeGeneric f context g) (s'.describeGeneric f context g) := by
  unfold describeGeneric
  refine (agree_lift _).bind fun _ _ _ => ?_
  rw [isVisible_reordered hr hkeys]
  refine (agree_ofResolving (sameAnswer_constraintSet_reordered hr hkeys _ g)).bind ?_
  rintro bases _ rfl
  exact agree_pure rfl

theorem agree_describeConstraints (context : String) (generics : List GenericFacts) :
    Agree hs hs' (fun a b => a = b) (s.describeConstraints f context generics)
      (s'.describeConstraints f context generics) := by
  unfold describeConstraints
  refine (Agree.mapM_same fun g _ => (agree_describeGeneric hr hkeys f context g).bind ?_).bind ?_
  · rintro bounds _ rfl
    exact agree_pure rfl
  · rintro all _ rfl
    exact agree_pure rfl

/-- **Members.** A member is listed the same wherever it stands. -/
theorem agree_describeMember (owner : TypeKind) (context : String) (interfaces : List TypeRef) {k k' : MemberHandle}
    {m : MemberEntry} (hm : s.member? k = some m) (hm' : s'.member? k' = some m) :
    Agree hs hs' (fun a b => a = b) (s.describeMember f owner context interfaces k m)
      (s'.describeMember f owner context interfaces k' m) := by
  unfold describeMember
  refine (agree_lift _).bind fun _ _ _ => ?_
  refine (agree_describeConstraints hr hkeys f context m.generics).bind ?_
  rintro constraints _ rfl
  rw [implementedInterface_eq hm, implementedInterface_eq hm']
  exact agree_pure rfl

theorem agree_describeMembers (owner : TypeKind) (context : String) (interfaces : List TypeRef) {h h' : TypeHandle}
    (ht : Twins s s' h h') :
    Agree hs hs' List.Perm (s.describeMembers f owner context interfaces (s.membersOf h))
      (s'.describeMembers f owner context interfaces (s'.membersOf h')) := by
  obtain ⟨entry, entry', hentry, hentry', members, hperm, rfl⟩ := ht
  have hkeeps : s.keepsMember f owner = s'.keepsMember f owner := by
    funext m
    rw [keepsMember, keepsMember, isVisible_reordered hr hkeys]
  have hkept : AnyOrder (fun p p' => p.2 = p'.2) (s.keptAmong f owner (s.membersOf h))
      (s'.keptAmong f owner (s'.membersOf h')) := by
    refine AnyOrder.of_map (anyOrder_eq_iff.2 ?_)
    rw [map_keptAmong f hentry, map_keptAmong f hentry', hkeeps]
    exact hperm.filter _
  rw [describeMembers_eq, describeMembers_eq]
  refine (Agree.mapM (hkept.imp fun p hp p' hp' hm => ?_)).imp fun ms ms' => anyOrder_eq_iff.1
  have hm' : s'.member? p'.1 = some p.2 := hm ▸ member?_of_mem_keptAmong hp'
  rw [← hm]
  exact agree_describeMember hr hkeys f owner context interfaces (member?_of_mem_keptAmong hp) hm'

/-! ## Types -/

/-- **Types.** A type is listed the same wherever it stands, up to members of equal Ids. -/
theorem agree_describeType {h h' : TypeHandle} {entry entry' : TypeEntry} (hentry : s.entry? h = some entry)
    (hentry' : s'.entry? h' = some entry') (hreordered : entry.Reordered entry') :
    Agree hs hs' TypeDescriptor.Reordered (s.describeType f h entry (s.membersOf h))
      (s'.describeType f h' entry' (s'.membersOf h')) := by
  have ht : Twins s s' h h' := ⟨entry, entry', hentry, hentry', hreordered⟩
  obtain ⟨members, -, rfl⟩ := hreordered
  unfold describeType
  refine (agree_lift _).bind fun _ _ _ => ?_
  rw [isVisible_reordered hr hkeys]
  refine (agree_ofResolving (sameAnswer_directInterfaces hr hkeys _ ht)).bind ?_
  rintro interfaces _ rfl
  refine (Agree.mapM_same fun g _ => (agree_describeGeneric hr hkeys f _ g).bind ?_).bind ?_
  · rintro bounds _ rfl
    exact agree_pure rfl
  rintro generics _ rfl
  refine (agree_describeMembers hr hkeys f _ _ _ ht).bind fun described described' hdescribed => ?_
  refine agree_pure ⟨_, ?_, rfl⟩
  exact ((List.mergeSort_perm _ _).trans hdescribed).trans (List.mergeSort_perm _ _).symm

theorem agree_describeTypes :
    Agree hs hs' (AnyOrder TypeDescriptor.Reordered) (s.describeTypes f s.membersOf [] s.moduleTypes)
      (s'.describeTypes f s'.membersOf [] s'.moduleTypes) := by
  have hexported : AnyOrder (fun p p' => p.2.Reordered p'.2) (s.exportedWith f s.moduleTypes)
      (s'.exportedWith f s'.moduleTypes) := by
    refine AnyOrder.of_map ?_
    rw [map_exportedWith, map_exportedWith, exported, exported, isExported_reordered hr hkeys]
    refine hr.entries.filter ?_
    rintro entry _ ⟨members, -, rfl⟩
    rfl
  have hdescribe : ∀ p ∈ s.exportedWith f s.moduleTypes, ∀ p' ∈ s'.exportedWith f s'.moduleTypes, p.2.Reordered p'.2 →
      Agree hs hs' TypeDescriptor.Reordered (s.describeType f p.1 p.2 (s.membersOf p.1))
        (s'.describeType f p'.1 p'.2 (s'.membersOf p'.1)) := fun p hp p' hp' hreordered =>
    agree_describeType hr hkeys f (entry?_of_mem_exportedWith hp) (entry?_of_mem_exportedWith hp') hreordered
  have hsteps := hexported.imp hdescribe
  have hleft : ∀ p ∈ s.exportedWith f s.moduleTypes, Steady hs (s.describeType f p.1 p.2 (s.membersOf p.1)) := fun p hp => by
    obtain ⟨p', -, hagree⟩ := hsteps.exists_mem hp
    exact hagree.left
  have hright : ∀ p ∈ s'.exportedWith f s'.moduleTypes, Steady hs' (s'.describeType f p.1 p.2 (s'.membersOf p.1)) :=
    fun p hp => by
      obtain ⟨p', -, hagree⟩ := hsteps.symm.exists_mem hp
      exact hagree.right
  have hchecked := describeTypes_checked f s.membersOf [] (fun h => s.entry?_isSome_of_mem_moduleTypes) hleft
  have hchecked' := describeTypes_checked f s'.membersOf [] (fun h => s'.entry?_isSome_of_mem_moduleTypes) hright
  have hmiddle := (Agree.mapM hsteps).bind fun ts ts' hts => agree_checked [] hts
  refine ((hchecked.trans hmiddle).trans hchecked'.symm).imp ?_
  rintro ts ts' ⟨_, ⟨_, rfl, h⟩, rfl⟩
  exact h

/-! ## Listings -/

/-- **Verdicts.** Both sets have listings, which differ in the order of types and members of equal Ids only, or none has. -/
theorem extract_verdicts (hs : s.Acyclic) : SameVerdict Listing.Reordered (s.extract f) (s'.extract f) := by
  have hs' := acyclic_reordered hr hkeys hs
  have hagree : Agree hs hs' _ _ _ := agree_describeTypes hr hkeys f
  rw [extract_eq, extract_eq]
  refine hagree.outcomes.bind fun ts ts' hts => .result ⟨hr.identity, ?_⟩
  exact (hts.perm_left (List.mergeSort_perm _ _)).perm_right (List.mergeSort_perm _ _).symm

/-- **The order of the facts does not matter.** Where definition keys are distinct and the definition graph is acyclic, facts
in another order have a listing exactly when these have, and if no Id comes twice it is the same. -/
theorem extract_reordered (hs : s.Acyclic) :
    ((∃ l, s.extract f = .ok l) ↔ ∃ l', s'.extract f = .ok l') ∧
      ∀ l l', s.extract f = .ok l → s'.extract f = .ok l' → l.DistinctIds → l = l' := by
  have hverdicts := extract_verdicts hr hkeys f hs
  refine ⟨hverdicts.ok_iff, fun l l' hl hl' hids => ?_⟩
  rw [hl, hl'] at hverdicts
  cases hverdicts with
  | result hreordered =>
    calc
      l = l.sort := (sort_extracted f hl).symm
      _ = l'.sort := Listing.sort_reordered hreordered hids
      _ = l' := sort_extracted f hl'

end

/-- a class of shapes, and one over it with overloads -/
def shapeClass : TypeEntry := bareType .classType .pub (.topLevel "" "Shape") []

def squareClass (members : List MemberEntry) : TypeEntry where
  facts := { shapeClass.facts with
    reference := .topLevel "" "Square"
    baseType := some (.topLevel "" "Shape") }
  generics := []
  members := members
  isDependency := false

def squares : FactSet :=
  ⟨"Shapes",
    [shapeClass, squareClass [methodFacts .pub (.topLevel "" "Shape"), methodFacts .pub (.topLevel "" "Square")]]⟩

def squaresBackward : FactSet :=
  ⟨"Shapes",
    [squareClass [methodFacts .pub (.topLevel "" "Square"), methodFacts .pub (.topLevel "" "Shape")], shapeClass]⟩

/-- the classes as described -/
def describedSquares (shapeMembers squareMembers : List MemberDescriptor) : List TypeDescriptor :=
  [{ TypeDescriptor.ofClass "Shape" with members := shapeMembers },
    { TypeDescriptor.ofClass "Square" with
      baseType := some "Shape"
      members := squareMembers }]

/-- the overloads as listed -/
def listedOverloads : List MemberDescriptor :=
  [{ listedMethod with parameters := [.plain "x" "Shape"] }, { listedMethod with parameters := [.plain "x" "Square"] }]

theorem extract_squares : squares.extract .standard = .ok ⟨"Shapes", describedSquares [] listedOverloads⟩ := by
  have hexported : ∀ entry ∈ squares.entries, squares.isExported .standard entry.facts = true := by
    simp only [isExported_eq]
    decide
  have hshape : squares.entry? ⟨0⟩ = some shapeClass := rfl
  have hsquare : squares.entry? ⟨1⟩ = some (squareClass _) := rfl
  have hmodule : squares.moduleTypes = [⟨0⟩, ⟨1⟩] := rfl
  -- everything is in order already
  refine extract_of_outcome _ ?_ (by decide) (by decide)
  simp only [hmodule, describeTypes, hshape, hsquare, hexported _ (List.mem_of_getElem? hshape),
    hexported _ (List.mem_of_getElem? hsquare), if_true]
  rfl

/-- read backward, types and members, the module has the same listing -/
theorem extract_reordered_squares :
    squares.Reordered squaresBackward ∧ squares.DistinctKeys ∧ squares.Acyclic ∧
      (Listing.mk "Shapes" (describedSquares [] listedOverloads)).DistinctIds ∧
      squaresBackward.extract .standard = .ok ⟨"Shapes", describedSquares [] listedOverloads⟩ := by
  have hr : squares.Reordered squaresBackward :=
    ⟨rfl, _, List.Perm.swap .., .cons ⟨_, List.Perm.swap .., rfl⟩ (.cons ⟨_, List.Perm.refl _, rfl⟩ .nil)⟩
  have hkeys : squares.DistinctKeys := by
    unfold DistinctKeys
    decide
  have hs : squares.Acyclic := acyclic_of_earlier (by decide)
  have hids : (Listing.mk "Shapes" (describedSquares [] listedOverloads)).DistinctIds := ⟨by decide, by decide⟩
  obtain ⟨hsome, hsame⟩ := extract_reordered hr hkeys .standard hs
  obtain ⟨l, hl⟩ := hsome.1 ⟨_, extract_squares⟩
  have heq := hsame _ l extract_squares hl hids
  exact ⟨hr, hkeys, hs, hids, heq ▸ hl⟩

end ApiSurface.FactSet
