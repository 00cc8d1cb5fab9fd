/-
What extracted listings have in common, and when they can be read again.

`extract_spec`: the types are the exported ones, under distinct canonical names; they obey the rules on sealed and static
types, and their members have names.
`extracted_loads_iff`: a listing is read again exactly when its types have names and the Ids of members are distinct.
`overloads_not_loaded`: the Ids of members may not be.
-/
import ApiSurface.Proofs.Extraction.Ensures
import ApiSurface.Proofs.Listing.Persistence
import ApiSurface.Proofs.Listing.Validity
import Mathlib

namespace ApiSurface

open Extracting

/-! ## Types -/

/-- what an extracted type obeys -/
structure WellMade (t : TypeDescriptor) : Prop where
  interface_open : t.kind = .interfaceType → t.isSealed = false
  static_class : t.isStatic = true → t.kind = .classType
  members_named : ∀ m ∈ t.members, m.name ≠ ""

namespace FactSet

variable (s : FactSet) (f : VisibilityFilter)

theorem ensures_describeMember (owner : TypeKind) (context : String) (interfaces : List TypeRef) (h : MemberHandle)
    (entry : MemberEntry) : Ensures (s.describeMember f owner context interfaces h entry) fun m => m.name ≠ "" := by
  unfold describeMember
  refine (ensures_requireName _ _ _).bind fun _ hname => ?_
  refine (ensures_true _).bind fun constraints _ => ?_
  refine ensures_pure ?_
  dsimp only
  intro hempty
  have hown : entry.facts.name = "" := (String.append_eq_empty_iff.1 hempty).1
  rw [hown] at hname
  cases hname

theorem ensures_describeMembers (owner : TypeKind) (context : String) (interfaces : List TypeRef)
    (handles : List MemberHandle) :
    Ensures (s.describeMembers f owner context interfaces handles) fun ms => ∀ m ∈ ms, m.name ≠ "" := by
  induction handles with
  | nil =>
    rw [describeMembers]
    exact ensures_pure fun m hm => absurd hm List.not_mem_nil
  | cons h rest ih =>
    rw [describeMembers]
    split
    · exact ih
    · split
      · refine (s.ensures_describeMember f owner context interfaces h _).bind fun m hm => ?_
        refine ih.bind fun others hothers => ensures_pure ?_
        intro m' hm'
        rcases List.mem_cons.1 hm' with rfl | hm'
        · exact hm
        · exact hothers m' hm'
      · exact ih

theorem ensures_describeType (h : TypeHandle) (entry : TypeEntry) (members : List MemberHandle) :
    Ensures (s.describeType f h entry members) fun t =>
      WellMade t ∧ t.name = entry.facts.reference.canonicalName := by
  unfold describeType
  refine (ensures_true _).bind fun _ _ => ?_
  refine (ensures_true _).bind fun interfaces _ => ?_
  refine (ensures_true _).bind fun generics _ => ?_
  refine (s.ensures_describeMembers f _ _ _ _).bind fun described hdescribed => ?_
  refine ensures_pure ⟨⟨?_, ?_, ?_⟩, rfl⟩
  · intro hkind
    dsimp only at hkind ⊢
    rw [hkind]
    rfl
  · intro hstatic
    dsimp only at hstatic ⊢
    rw [Bool.and_eq_true, Bool.and_eq_true] at hstatic
    exact eq_of_beq hstatic.1.1
  · intro m hm
    exact hdescribed m ((List.mergeSort_perm _ _).mem_iff.1 hm)

/-- the exported types among some, in order -/
def exportedAmong (handles : List TypeHandle) : List TypeEntry :=
  (handles.filterMap s.entry?).filter fun entry => s.isExported f entry.facts

theorem exportedAmong_cons {h : TypeHandle} {entry : TypeEntry} (hentry : s.entry? h = some entry)
    (rest : List TypeHandle) : s.exportedAmong f (h :: rest) =
      if s.isExported f entry.facts then entry :: s.exportedAmong f rest else s.exportedAmong f rest := by
  rw [exportedAmong, List.filterMap_cons, hentry]
  exact List.filter_cons

/-- the canonical names of types -/
def canonicalNames (entries : List TypeEntry) : List String :=
  entries.map fun entry => entry.facts.reference.canonicalName

theorem ensures_describeTypes (members : TypeHandle → List MemberHandle) (names : List String)
    (handles : List TypeHandle) :
    Ensures (s.describeTypes f members names handles) fun ts =>
      (∀ t ∈ ts, WellMade t ∧ t.name ∉ names) ∧ (ts.map TypeDescriptor.name).Nodup ∧
        ts.map TypeDescriptor.name = canonicalNames (s.exportedAmong f handles) := by
  induction handles generalizing names with
  | nil =>
    rw [describeTypes]
    exact ensures_pure ⟨fun t ht => absurd ht List.not_mem_nil, List.nodup_nil, rfl⟩
  | cons h rest ih =>
    rw [describeTypes]
    split
    · exact ensures_throw _
    · next entry hentry =>
      split
      · next hexported =>
        refine (s.ensures_describeType f h entry _).bind fun t ht => ?_
        obtain ⟨hmade, hname⟩ := ht
        split
        · have hstop : Ensures (throw (.duplicateType t.name) : Extracting PUnit) fun _ => False := ensures_throw _
          exact hstop.bind fun _ hfalse => hfalse.elim
        · next hnew =>
          refine (ih (t.name :: names)).bind fun others hothers => ensures_pure ?_
          obtain ⟨hmade', hnodup, hnames⟩ := hothers
          refine ⟨?_, ?_, ?_⟩
          · intro t' ht'
            rcases List.mem_cons.1 ht' with rfl | ht'
            · exact ⟨hmade, fun hmem => hnew (List.contains_iff_mem.2 hmem)⟩
            · exact ⟨(hmade' t' ht').1, fun hmem => (hmade' t' ht').2 (List.mem_cons_of_mem _ hmem)⟩
          · refine List.nodup_cons.2 ⟨fun hmem => ?_, hnodup⟩
            obtain ⟨t', ht', heq⟩ := List.mem_map.1 hmem
            exact (hmade' t' ht').2 (heq ▸ List.mem_cons_self)
          · rw [List.map_cons, hnames, hname, s.exportedAmong_cons f hentry, if_pos hexported]
            rfl
      · next hhidden =>
        rw [s.exportedAmong_cons f hentry, if_neg hhidden]
        exact ih names

/-! ## Listings -/

/-- the exported types of the module -/
def exported : List TypeEntry :=
  s.entries.filter fun entry => !entry.isDependency && s.isExported f entry.facts

/-- the handles of the module stand for its types -/
theorem filterMap_moduleTypes : s.moduleTypes.filterMap s.entry? = s.entries.filter fun entry => !entry.isDependency := by
  have hentry : ∀ p ∈ s.entries.zipIdx, ((if p.1.isDependency then none else some ⟨p.2⟩) : Option TypeHandle).bind
      s.entry? = if p.1.isDependency then none else some p.1 := by
    intro p hp
    have hget := List.mem_zipIdx_iff_getElem?.1 hp
    split
    · rfl
    · exact hget
  have hfilter : ∀ entries : List TypeEntry, (entries.filterMap fun entry =>
      if entry.isDependency then none else some entry) = entries.filter fun entry => !entry.isDependency := by
    intro entries
    rw [← List.filterMap_eq_filter]
    congr 1
    funext entry
    cases h : entry.isDependency <;> simp [h, Option.guard]
  unfold moduleTypes
  rw [List.filterMap_filterMap, ← hfilter]
  calc
    _ = s.entries.zipIdx.filterMap fun p => if p.1.isDependency then none else some p.1 :=
      List.filterMap_congr hentry
    _ = (s.entries.zipIdx.map Prod.fst).filterMap fun entry => if entry.isDependency then none else some entry := by
      rw [List.filterMap_map]
      rfl
    _ = _ := by rw [List.zipIdx_map_fst]

theorem exportedAmong_moduleTypes : s.exportedAmong f s.moduleTypes = s.exported f := by
  unfold exportedAmong exported
  rw [filterMap_moduleTypes, List.filter_filter]
  congr 1
  funext entry
  exact Bool.and_comm _ _

/-- **What extraction guarantees.** The names of the types are the canonical names of the exported ones, and distinct. No
interface is sealed, only classes are static, and no member is without a name. -/
theorem extract_spec {l : Listing} (h : s.extract f = .ok l) :
    (l.types.map TypeDescriptor.name).Nodup ∧
      (l.types.map TypeDescriptor.name).Perm (canonicalNames (s.exported f)) ∧ ∀ t ∈ l.types, WellMade t := by
  unfold extract extractRoster at h
  cases hrun : (s.describeTypes f s.roster.members [] s.roster.types).run [] with
  | error fault =>
    rw [hrun] at h
    cases h
  | ok result =>
    obtain ⟨ts, known⟩ := result
    rw [hrun] at h
    cases h
    obtain ⟨hmade, hnodup, hnames⟩ := s.ensures_describeTypes f _ [] _ [] ts known hrun
    have hperm := (List.mergeSort_perm ts fun a b => decide (a.id ≤ b.id)).map TypeDescriptor.name
    refine ⟨hperm.nodup_iff.2 hnodup, ?_, fun t ht => (hmade t ((List.mergeSort_perm _ _).mem_iff.1 ht)).1⟩
    rw [← exportedAmong_moduleTypes]
    exact hperm.trans (List.Perm.of_eq hnames)

end FactSet

/-! ## Loading -/

/-- every exported type has a canonical name, and no two listed members of a type have one Id -/
def FactSet.Nameable (s : FactSet) (f : VisibilityFilter) (l : Listing) : Prop :=
  (∀ entry ∈ s.exported f, entry.facts.reference.canonicalName ≠ "") ∧
    ∀ t ∈ l.types, (t.members.map MemberDescriptor.id).Nodup

/-- an extracted listing is valid when all it holds can be named -/
theorem FactSet.valid_iff_nameable {s : FactSet} {f : VisibilityFilter} {l : Listing} (h : s.extract f = .ok l) :
    l.validate = .ok () ↔ s.Nameable f l := by
  obtain ⟨hnodup, hperm, hmade⟩ := s.extract_spec f h
  have hnames : (∀ t ∈ l.types, t.name ≠ "") ↔ ∀ entry ∈ s.exported f, entry.facts.reference.canonicalName ≠ "" := by
    have hmem := hperm.mem_iff (a := "")
    simp only [canonicalNames, List.mem_map] at hmem
    constructor
    · intro hne entry hentry heq
      obtain ⟨t, ht, hname⟩ := hmem.2 ⟨entry, hentry, heq⟩
      exact hne t ht hname
    · intro hne t ht heq
      obtain ⟨entry, hentry, hname⟩ := hmem.1 ⟨t, ht, heq⟩
      exact hne entry hentry hname
  rw [Listing.validate_eq_ok_iff]
  constructor
  · intro hvalid
    exact ⟨hnames.1 fun t ht => (hvalid.types t ht).named, fun t ht => (hvalid.types t ht).members_distinct⟩
  · rintro ⟨hnamed, hdistinct⟩
    refine ⟨hnodup, fun t ht => ?_⟩
    have ht' := hmade t ht
    exact ⟨hnames.2 hnamed t ht, ht'.interface_open, ht'.static_class, ht'.members_named, hdistinct t ht⟩

/-- **An extracted listing can be read again exactly when all it holds can be named.** Of the rules for listings these are
the two that extraction does not see to; and whether it is read from its compact text or from the lines that a command
writes makes no difference. -/
theorem extracted_loads_iff (s : FactSet) (f : VisibilityFilter) (l : Listing) (h : s.extract f = .ok l) :
    (l.validate = .ok () ↔ s.Nameable f l) ∧ (Listing.load l.toJson.compact = .ok l ↔ s.Nameable f l) ∧
      (Listing.load (l.toJson.pretty ++ "\n") = .ok l ↔ s.Nameable f l) := by
  have hvalid := FactSet.valid_iff_nameable h
  obtain ⟨hcompact, hpretty⟩ := l.load_texts
  rw [hcompact, hpretty, Listing.checked_eq_ok_iff]
  exact ⟨hvalid, hvalid, hvalid⟩

/-- a method `M` of one parameter -/
def methodFacts (visibility : Visibility) (type : TypeRef) : MemberEntry where
  facts := {
    kind := .method
    name := "M"
    visibility := visibility
    returnType := none
    isStatic := false
    isVirtual := false
    isAbstract := false
    isFinal := false
    isNewSlot := false
    hidesBase := false
    isExtension := false
    isInitOnly := false
    literal := none
    explicitInterface := none
    implements := [] }
  parameters := [⟨"x", type, false, none, false⟩]
  generics := []

/-- a class `C` with a generic parameter `T` -/
def classFacts (members : List MemberEntry) : FactSet where
  identity := "Lib"
  entries := [{
    facts := ⟨(TypeRef.topLevel "" "C\x601").withArguments [.parameter "T" 0 false], .pub, .classType, false, false, none,
      []⟩
    generics := [⟨"T", 0, false, false, false, []⟩]
    members := members
    isDependency := false }]

/-- the method as listed -/
def listedMethod : MemberDescriptor :=
  { MemberDescriptor.plain .method "M" with
    parameters := [.plain "x" "T"]
    visibility := some .pub }

/-- the class as listed -/
def listedClass (members : List MemberDescriptor) : Listing :=
  ⟨"Lib", [{ TypeDescriptor.ofClass "C<T>" with
    genericParameters := [.unconstrained "T"]
    members := members }]⟩

/-- a method for the generic parameter, and a hidden one for a type of that name -/
theorem extracted_loads_iff_hidden :
    (classFacts [methodFacts .pub (.parameter "T" 0 false), methodFacts .priv (.topLevel "" "T")]).extract .standard =
        .ok (listedClass [listedMethod]) ∧
      Listing.load (listedClass [listedMethod]).toJson.compact = .ok (listedClass [listedMethod]) := by
  have hextract : (classFacts [methodFacts .pub (.parameter "T" 0 false), methodFacts .priv (.topLevel "" "T")]).extract
      .standard = .ok (listedClass [listedMethod]) := by cbv
  refine ⟨hextract, ((extracted_loads_iff _ _ _ hextract).2.1).2 ⟨?_, by decide⟩⟩
  intro entry hentry
  rw [List.mem_singleton.1 (List.mem_filter.1 hentry).1]
  decide

/-- **Extraction may write what cannot be read again**: overloads for a generic parameter and for a type of its name have
one Id, and nothing keeps them from being listed both. -/
theorem overloads_not_loaded :
    (classFacts [methodFacts .pub (.parameter "T" 0 false), methodFacts .pub (.topLevel "" "T")]).extract .standard =
        .ok (listedClass [listedMethod, listedMethod]) ∧
      ¬(listedClass [listedMethod, listedMethod]).validate = .ok () ∧
      Listing.load (listedClass [listedMethod, listedMethod]).toJson.compact =
        .error (.duplicateMember "C<T>" "public M(T x)") := by
  refine ⟨by cbv, by decide, ?_⟩
  rw [(Listing.load_texts _).1]
  decide

end ApiSurface
