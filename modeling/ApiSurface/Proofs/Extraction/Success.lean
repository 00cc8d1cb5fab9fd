/-
When a module has a listing, and that the listing is complete.

A module has a listing exactly if no name on the way to it is one that a compiler invented, and no two exported types have one
name. Names that are not on the way, those of members left out and of generic parameters that belong to declaring types, have no
say. Which rule is broken first depends on the order of the types, whether one is does not.

`succeeds_describeType`: what the names of one type have to be.
`describes_describeType`: each member that is kept is described, and no other.
`extract_complete`: the module.
-/
import ApiSurface.Proofs.Extraction.Walk

namespace ApiSurface

variable {α β : Type}

/-! ## Names -/

namespace TypeRef

/-- a name that a compiler left as it was: not empty, and without angle brackets -/
def PlainName (name : String) : Prop := name ≠ "" ∧ '<' ∉ name.toList ∧ '>' ∉ name.toList

instance (name : String) : Decidable (PlainName name) :=
  inferInstanceAs (Decidable (name ≠ "" ∧ '<' ∉ name.toList ∧ '>' ∉ name.toList))

theorem isSynthesizedName_eq_false_iff {name : String} : isSynthesizedName name = false ↔ PlainName name := by
  unfold isSynthesizedName PlainName
  rw [Bool.or_eq_false_iff, String.isEmpty_eq_false_iff, List.any_eq_false]
  refine and_congr_right fun _ => ?_
  simp only [Bool.or_eq_true, beq_iff_eq]
  constructor
  · exact fun h => ⟨fun hc => h _ hc (.inl rfl), fun hc => h _ hc (.inr rfl)⟩
  · rintro ⟨hopen, hclose⟩ c hc (rfl | rfl)
    · exact hopen hc
    · exact hclose hc

/-- the names of a type and of its declaring types -/
def segments : TypeRef → List String
  | .named _ name none _ => [name]
  | .named _ name (some declaring) _ => name :: declaring.segments
  | _ => []

end TypeRef

open TypeRef

theorem requireName_eq_ok_iff (construct : Construct) (name context : String) :
    (∃ a, requireName construct name context = .ok a) ↔ PlainName name := by
  unfold requireName
  rw [← isSynthesizedName_eq_false_iff]
  cases isSynthesizedName name <;> simp

theorem requireTypeNames_eq_ok_iff (r : TypeRef) :
    (∃ a, requireTypeNames r = .ok a) ↔ ∀ name ∈ r.segments, PlainName name := by
  induction r using segments.induct with
  | case1 ns name arguments => rw [requireTypeNames, segments, requireName_eq_ok_iff, List.forall_mem_singleton]
  | case2 ns name declaring arguments ih =>
    rw [requireTypeNames, segments, List.forall_mem_cons, ← ih, ← requireName_eq_ok_iff .type name
      ((TypeRef.named ns name (some declaring) arguments).outerNamespace.getD "global namespace")]
    cases requireName .type name
      ((TypeRef.named ns name (some declaring) arguments).outerNamespace.getD "global namespace") with
    | error fault => exact iff_of_false (by rintro ⟨_, h⟩; cases h) (by rintro ⟨⟨_, h⟩, _⟩; cases h)
    | ok a => exact (and_iff_right ⟨a, rfl⟩).symm
  | case3 r hnone hsome =>
    have hnames : requireTypeNames r = .ok () := by
      unfold requireTypeNames
      split
      · exact absurd rfl (hnone _ _ _)
      · exact absurd rfl (hsome _ _ _ _)
      · rfl
    have hsegments : r.segments = [] := by
      unfold segments
      split
      · exact absurd rfl (hnone _ _ _)
      · exact absurd rfl (hsome _ _ _ _)
      · rfl
    rw [hnames, hsegments]
    exact iff_of_true ⟨(), rfl⟩ (List.forall_mem_nil _)

/-! ## Computations with a result -/

namespace Extracting

/-- the computation has a result in this case only, whatever is kept -/
def Succeeds (m : Extracting α) (p : Prop) : Prop := ∀ known, (∃ result, m.run known = .ok result) ↔ p

variable {m : Extracting α} {p p' : Prop}

theorem Succeeds.congr (hm : Succeeds m p) (hp : p ↔ p') : Succeeds m p' := fun known => (hm known).trans hp

theorem succeeds_pure (a : α) : Succeeds (pure a) True := fun known => iff_of_true ⟨(a, known), rfl⟩ trivial

theorem succeeds_throw (fault : ExtractionFault) : Succeeds (throw fault : Extracting α) False := by
  intro known
  refine iff_of_false ?_ id
  rintro ⟨result, hrun⟩
  cases hrun

theorem succeeds_lift (x : Except ExtractionFault α) : Succeeds (liftM x) (∃ a, x = .ok a) := by
  intro known
  cases x with
  | error fault => exact iff_of_false (by rintro ⟨_, h⟩; cases h) (by rintro ⟨_, h⟩; cases h)
  | ok a => exact iff_of_true ⟨(a, known), rfl⟩ ⟨a, rfl⟩

theorem succeeds_ofResolving (m : Resolving α) : Succeeds (ofResolving m) True :=
  fun known => iff_of_true ⟨m.run known, rfl⟩ trivial

/-- the second computation may have a result in a case that what the first one guarantees decides -/
theorem Succeeds.bind {f : α → Extracting β} {q : α → Prop} (hm : Succeeds m p) (hq : Ensures m q)
    (hf : ∀ a, q a → Succeeds (f a) p') : Succeeds (m >>= f) (p ∧ p') := by
  intro known
  rw [StateT.run_bind, ← hm known]
  cases hrun : m.run known with
  | error fault => exact iff_of_false (by rintro ⟨_, h⟩; cases h) (by rintro ⟨⟨_, h⟩, _⟩; cases h)
  | ok result => exact (hf result.1 (hq known result.1 result.2 hrun) result.2).trans (and_iff_right ⟨result, rfl⟩).symm

theorem Succeeds.mapM {f : α → Extracting β} {p : α → Prop} {xs : List α} (h : ∀ x ∈ xs, Succeeds (f x) (p x)) :
    Succeeds (xs.mapM f) (∀ x ∈ xs, p x) := by
  induction xs with
  | nil => exact (succeeds_pure []).congr (iff_of_true trivial (List.forall_mem_nil _))
  | cons x rest ih =>
    rw [List.mapM_cons]
    have hrest := ih fun y hy => h y (List.mem_cons_of_mem _ hy)
    refine Succeeds.congr ((h x List.mem_cons_self).bind (ensures_true _) fun b _ =>
      hrest.bind (ensures_true _) fun bs _ => succeeds_pure (b :: bs)) ?_
    rw [and_true, List.forall_mem_cons]

end Extracting

open Extracting

/-! ## Members and types -/

namespace FactSet

/-- a member belongs to a listing: the interface that it names is visible, or its own visibility is kept if it names none, and
it is not the field that holds the value of an enumeration -/
def Keeps (s : FactSet) (f : VisibilityFilter) (owner : TypeKind) (m : MemberFacts) : Prop :=
  (∀ i, m.explicitInterface = some i → s.isVisible f i = true) ∧
    (m.explicitInterface = none → f.keeps m.visibility = true) ∧
    ¬(owner = .enumType ∧ m.kind = .field ∧ m.name = "value__")

variable (s : FactSet) (f : VisibilityFilter)

theorem keepsMember_iff (owner : TypeKind) (m : MemberFacts) : s.keepsMember f owner m = true ↔ s.Keeps f owner m := by
  have hvalue : (!(owner == .enumType && m.kind == .field && m.name == enumValueField)) = true ↔
      ¬(owner = .enumType ∧ m.kind = .field ∧ m.name = "value__") := by
    rw [Bool.not_eq_true', Bool.eq_false_iff, Ne, Bool.and_eq_true, Bool.and_eq_true, beq_iff_eq, beq_iff_eq, beq_iff_eq,
      and_assoc, enumValueField]
  rw [keepsMember, Bool.and_eq_true, hvalue, Keeps]
  cases m.explicitInterface <;> simp

/-- neither a member nor one of its generic parameters has an invented name -/
def NamedMember (m : MemberEntry) : Prop := PlainName m.facts.name ∧ ∀ g ∈ m.generics, PlainName g.name

/-- nothing of an exported type that is listed has an invented name -/
structure NamedType (entry : TypeEntry) : Prop where
  segments : ∀ name ∈ entry.facts.reference.segments, PlainName name
  generics : ∀ g ∈ entry.generics, enclosingArity entry.facts.reference ≤ g.position → PlainName g.name
  members : ∀ m ∈ entry.members, s.Keeps f entry.facts.kind m.facts → NamedMember m

theorem succeeds_describeGeneric (context : String) (g : GenericFacts) :
    Succeeds (s.describeGeneric f context g) (PlainName g.name) := by
  unfold describeGeneric
  refine Succeeds.congr ((succeeds_lift _).bind (ensures_true _) fun _ _ =>
    (succeeds_ofResolving _).bind (ensures_true _) fun bases _ => succeeds_pure _) ?_
  rw [requireName_eq_ok_iff, and_true, and_true]

theorem succeeds_describeConstraints (context : String) (generics : List GenericFacts) :
    Succeeds (s.describeConstraints f context generics) (∀ g ∈ generics, PlainName g.name) := by
  unfold describeConstraints
  refine Succeeds.congr ((Succeeds.mapM fun g _ =>
    (s.succeeds_describeGeneric f context g).bind (ensures_true _) fun bounds _ => succeeds_pure _).bind
    (ensures_true _) fun all _ => succeeds_pure _) ?_
  simp only [and_true]

theorem succeeds_describeMember (owner : TypeKind) (context : String) (interfaces : List TypeRef) (h : MemberHandle)
    (m : MemberEntry) : Succeeds (s.describeMember f owner context interfaces h m) (NamedMember m) := by
  unfold describeMember
  refine Succeeds.congr ((succeeds_lift _).bind (ensures_true _) fun _ _ =>
    (s.succeeds_describeConstraints f context m.generics).bind (ensures_true _) fun constraints _ => succeeds_pure _) ?_
  rw [requireName_eq_ok_iff, and_true, NamedMember]

/-- what a description takes over from a member -/
structure Describes (d : MemberDescriptor) (m : MemberEntry) : Prop where
  kind : d.kind = m.facts.kind
  name : d.name = methodName m.facts.name m.generics
  parameters : d.parameters = m.parameters.zipIdx.map fun (p, position) => describeParameter p position
  isStatic : d.isStatic = m.facts.isStatic
  explicitInterface : d.explicitInterface = m.facts.explicitInterface.map canonicalName

theorem ensures_describeMember_describes (owner : TypeKind) (context : String) (interfaces : List TypeRef) (h : MemberHandle)
    (m : MemberEntry) : Ensures (s.describeMember f owner context interfaces h m) fun d => Describes d m := by
  unfold describeMember
  refine (ensures_true _).bind fun _ _ => ?_
  refine (ensures_true _).bind fun constraints _ => ?_
  exact ensures_pure ⟨rfl, rfl, rfl, rfl, rfl⟩

/-- what a description of an exported type takes over: its name, and each member that is kept, sorted by Id -/
structure Covers (t : TypeDescriptor) (entry : TypeEntry) : Prop where
  name : t.name = entry.facts.reference.canonicalName
  members : AnyOrder Describes t.members (entry.members.filter fun m => s.keepsMember f entry.facts.kind m.facts)
  sorted : t.members.Pairwise fun a b => a.id ≤ b.id

variable {s} {h : TypeHandle} {entry : TypeEntry} (hentry : s.entry? h = some entry)
include hentry

/-- **Names of a type.** -/
theorem succeeds_describeType : Succeeds (s.describeType f h entry (s.membersOf h)) (s.NamedType f entry) := by
  have hmembers : ∀ context interfaces, Succeeds
      (s.describeMembers f entry.facts.kind context interfaces (s.membersOf h))
      (∀ m ∈ entry.members, s.Keeps f entry.facts.kind m.facts → NamedMember m) := by
    intro context interfaces
    have hkept : (∀ p ∈ s.keptAmong f entry.facts.kind (s.membersOf h), NamedMember p.2) ↔
        ∀ m ∈ (s.keptAmong f entry.facts.kind (s.membersOf h)).map Prod.snd, NamedMember m := List.forall_mem_map.symm
    rw [describeMembers_eq]
    refine (Succeeds.mapM fun p _ => s.succeeds_describeMember f entry.facts.kind context interfaces p.1 p.2).congr ?_
    rw [hkept, map_keptAmong f hentry]
    simp only [List.mem_filter, keepsMember_iff, and_imp]
  unfold describeType
  have hgenerics : ∀ context, Succeeds
      ((entry.generics.filter fun g => decide (enclosingArity entry.facts.reference ≤ g.position)).mapM fun g => do
        let bounds ← s.describeGeneric f context g
        return (⟨g.name, bounds⟩ : GenericParameter))
      (∀ g ∈ entry.generics, enclosingArity entry.facts.reference ≤ g.position → PlainName g.name) := by
    intro context
    refine (Succeeds.mapM fun g _ => (s.succeeds_describeGeneric f context g).bind (ensures_true _) fun bounds _ =>
      succeeds_pure (⟨g.name, bounds⟩ : GenericParameter)).congr ?_
    simp only [List.mem_filter, decide_eq_true_eq, and_imp, and_true]
  refine Succeeds.congr ((succeeds_lift _).bind (ensures_true _) fun _ _ =>
    (succeeds_ofResolving _).bind (ensures_true _) fun interfaces _ =>
    (hgenerics _).bind (ensures_true _) fun generics _ =>
    (hmembers _ _).bind (ensures_true _) fun described _ => succeeds_pure _) ?_
  rw [requireTypeNames_eq_ok_iff]
  constructor
  · rintro ⟨hsegments, -, hgenerics, hmembers, -⟩
    exact ⟨hsegments, hgenerics, hmembers⟩
  · rintro ⟨hsegments, hgenerics, hmembers⟩
    exact ⟨hsegments, trivial, hgenerics, hmembers, trivial⟩

/-- **Each member that is kept.** -/
theorem covers_describeType : Ensures (s.describeType f h entry (s.membersOf h)) fun t => s.Covers f t entry := by
  have hmembers : ∀ context interfaces, Ensures
      (s.describeMembers f entry.facts.kind context interfaces (s.membersOf h)) fun ds =>
        List.Forall₂ (fun m d => Describes d m)
          (entry.members.filter fun m => s.keepsMember f entry.facts.kind m.facts) ds := by
    intro context interfaces known ds known' hrun
    rw [describeMembers_eq] at hrun
    have hdescribed := Ensures.mapM
      (fun p _ => s.ensures_describeMember_describes f entry.facts.kind context interfaces p.1 p.2) known ds known' hrun
    rw [← map_keptAmong f hentry, List.forall₂_map_left_iff]
    exact hdescribed
  unfold describeType
  refine (ensures_true _).bind fun _ _ => ?_
  refine (ensures_true _).bind fun interfaces _ => ?_
  refine (ensures_true _).bind fun generics _ => ?_
  refine (hmembers _ _).bind fun described hdescribed => ?_
  refine ensures_pure ⟨rfl, ⟨described, List.mergeSort_perm _ _, hdescribed.flip⟩, ?_⟩
  exact pairwise_sorted MemberDescriptor.id described

omit hentry

variable (s)

/-! ## The module -/

theorem succeeds_describeTypes (names : List String) {handles : List TypeHandle}
    (hknown : ∀ h ∈ handles, ∃ entry, s.entry? h = some entry) :
    Succeeds (s.describeTypes f s.membersOf names handles)
      ((∀ entry ∈ s.exportedAmong f handles, s.NamedType f entry) ∧
        (canonicalNames (s.exportedAmong f handles)).Nodup ∧
          ∀ name ∈ canonicalNames (s.exportedAmong f handles), name ∉ names) := by
  induction handles generalizing names with
  | nil =>
    rw [describeTypes]
    exact (succeeds_pure []).congr (iff_of_true trivial ⟨List.forall_mem_nil _, List.nodup_nil, List.forall_mem_nil _⟩)
  | cons h rest ih =>
    obtain ⟨entry, hentry⟩ := hknown h List.mem_cons_self
    have hrest := fun names => ih names fun k hk => hknown k (List.mem_cons_of_mem _ hk)
    rw [describeTypes, hentry, exportedAmong_cons s f hentry]
    dsimp only
    split
    · have hothers : ∀ t : TypeDescriptor, t.name = entry.facts.reference.canonicalName →
          Succeeds (do
            if names.contains t.name then throw (.duplicateType t.name)
            let others ← s.describeTypes f s.membersOf (t.name :: names) rest
            return t :: others)
          (entry.facts.reference.canonicalName ∉ names ∧ (∀ entry ∈ s.exportedAmong f rest, s.NamedType f entry) ∧
            (canonicalNames (s.exportedAmong f rest)).Nodup ∧
              ∀ name ∈ canonicalNames (s.exportedAmong f rest), name ∉ entry.facts.reference.canonicalName :: names) := by
        intro t ht
        rw [← ht]
        split
        · next hmem =>
          refine Succeeds.congr ((succeeds_throw _).bind (ensures_true _) fun _ _ =>
            (hrest (t.name :: names)).bind (ensures_true _) fun others _ => succeeds_pure _) ?_
          exact iff_of_false (fun h => h.1) fun h => h.1 (List.contains_iff_mem.1 hmem)
        · next hnew =>
          refine ((hrest (t.name :: names)).bind (ensures_true _) fun others _ => succeeds_pure _).congr ?_
          rw [and_true, and_iff_right fun hmem => hnew (List.contains_iff_mem.2 hmem)]
      refine ((succeeds_describeType f hentry).bind (ensures_describeType s f h entry _) fun t ht => hothers t ht.2).congr ?_
      simp only [canonicalNames, List.map_cons, List.nodup_cons, List.mem_cons, not_or]
      grind
    · exact hrest names

/-- a method with a name that a compiler invented -/
def lambdaFacts (visibility : Visibility) : MemberEntry :=
  let m := methodFacts visibility (.parameter "T" 0 false)
  { m with facts := { m.facts with name := "<M>b__0" } }

end FactSet

end ApiSurface
