/-
The interfaces of base types, as a derived type has them.

A type has its base types' interfaces with the arguments put in that the references between them give. The list of a type's
interfaces is made on the way down, one substitution for each base type; the slots are looked up on the way up, with the
arguments put into each other first.

`Composes.up`: both ways give the same interface, from one base type to the next.
`exists_nearest`: so the slots of an inherited interface are found, at the nearest type that has any.
`mem_directInterfaces_iff`: what a base type brings in is listed exactly when members of the type implement it anew.
`interfaces_inherited`: both, for an interface that a base type declares and implements.
-/
import ApiSurface.Proofs.Extraction.Validity
import ApiSurface.Proofs.Interfaces.Brought
import ApiSurface.Proofs.Interfaces.Cache
import ApiSurface.Proofs.Interfaces.Slots

namespace ApiSurface

open TypeRef TypeFacts Resolving

/-- the interfaces that a member implements, explicitly or not -/
def MemberEntry.implemented (m : MemberEntry) : List TypeRef := m.facts.explicitInterface.toList ++ m.facts.implements

/-- the references in a definition that its interfaces depend on -/
def TypeEntry.lineageRefs (entry : TypeEntry) : List TypeRef :=
  entry.facts.supers ++ entry.members.flatMap MemberEntry.implemented

theorem TypeEntry.mem_lineageRefs_of_super {entry : TypeEntry} {r : TypeRef} (hr : r ∈ entry.facts.supers) :
    r ∈ entry.lineageRefs :=
  List.mem_append_left _ hr

theorem TypeEntry.mem_lineageRefs_of_member {entry : TypeEntry} {m : MemberEntry} {r : TypeRef} (hm : m ∈ entry.members)
    (hr : r ∈ m.implemented) : r ∈ entry.lineageRefs :=
  List.mem_append_right _ (List.mem_flatMap.2 ⟨m, hm, hr⟩)

theorem MemberEntry.standsIn_iff {m : MemberEntry} {arguments : List TypeRef} {name : String} :
    m.standsIn arguments name = true ↔ ∃ i ∈ m.implemented, (i.substitute arguments).canonicalName = name := by
  simp only [standsIn, implemented, List.any_eq_true, beq_iff_eq]

/-- an interface of the last of a line of base types, as the first type has it -/
def TypeRef.viewed (bases : List TypeRef) (i : TypeRef) : TypeRef :=
  bases.foldr (fun base i => i.substitute base.withoutByRef.arguments) i

namespace FactSet

variable {s : FactSet} {h k ancestor : TypeHandle} {entry : TypeEntry} {base i : TypeRef} {bases : List TypeRef}

/-- the base types of a definition up to another one, by the references to them -/
inductive Ascends (s : FactSet) : TypeHandle → List TypeRef → TypeHandle → Prop
  | here (h : TypeHandle) : Ascends s h [] h
  | up {h k ancestor : TypeHandle} {entry : TypeEntry} {base : TypeRef} {bases : List TypeRef}
      (hentry : s.entry? h = some entry) (hbase : base ∈ entry.facts.parent?) (hk : s.resolve base = some k)
      (hrest : Ascends s k bases ancestor) : Ascends s h (base :: bases) ancestor

/-- a member of the type implements the interface of a name, as the type that the references begin at has it -/
def Implements (s : FactSet) (bases : List TypeRef) (h : TypeHandle) (name : String) : Prop :=
  ∃ entry, s.entry? h = some entry ∧ ∃ m ∈ entry.members, ∃ i ∈ m.implemented, (viewed bases i).canonicalName = name

/-- the reference has an argument for every position that the interfaces of its definition depend on -/
def Furnishes (s : FactSet) (r : TypeRef) : Prop :=
  ∀ entry, (s.resolve r).bind s.entry? = some entry → ∀ q ∈ entry.lineageRefs, ∀ p ∈ q.positions,
    p < r.withoutByRef.arguments.length

instance (s : FactSet) (r : TypeRef) : Decidable (s.Furnishes r) :=
  inferInstanceAs (Decidable (∀ entry ∈ (s.resolve r).bind s.entry?, ∀ q ∈ entry.lineageRefs, ∀ p ∈ q.positions,
    p < r.withoutByRef.arguments.length))

/-- names tell the interfaces apart that a type brings in, or a base type up to some -/
def TellingUp (s : FactSet) (h : TypeHandle) (bases : List TypeRef) : Prop :=
  ∀ nearer k, nearer <+: bases → s.Ascends h nearer k →
    ∀ i j, s.Brings k i → s.Brings k j → i.canonicalName = j.canonicalName → i = j

theorem leads_of_parent (hentry : s.entry? h = some entry) (hbase : base ∈ entry.facts.parent?)
    (hk : s.resolve base = some k) : s.Leads h k :=
  leads_of_resolve (facts?_of_found hentry) (mem_supers.2 (Or.inr hbase)) hk

/-! ## Arguments on the way up -/

/-- a reference to a definition is to a named type, unless it is a managed one -/
theorem exists_named_of_resolve (hk : s.resolve base = some k) (hbase : base.isByRef = false) :
    ∃ ns name declaring own, base = .named ns name declaring own := by
  cases base with
  | named ns name declaring own => exact ⟨ns, name, declaring, own, rfl⟩
  | byRef => cases hbase
  | parameter => cases hk
  | array => cases hk
  | pointer => cases hk

/-- its positions are among those that the definition's interfaces depend on -/
def Within (entry : TypeEntry) (r : TypeRef) : Prop := ∀ p ∈ r.positions, ∃ q ∈ entry.lineageRefs, p ∈ q.positions

theorem within_of_mem {r : TypeRef} (hr : r ∈ entry.lineageRefs) : Within entry r := fun _ hp => ⟨r, hr, hp⟩

/-- the arguments put in at once are those of the line of base types, for all that the type's interfaces depend on -/
def Composes (s : FactSet) (bases : List TypeRef) (h : TypeHandle) (arguments : List TypeRef) : Prop :=
  ∀ entry, s.entry? h = some entry → ∀ r, Within entry r → r.substitute arguments = viewed bases r

theorem composes_nil (s : FactSet) (h : TypeHandle) : s.Composes [] h [] := fun _ _ r _ => substitute_nil r

theorem viewed_concat (bases : List TypeRef) (base r : TypeRef) :
    viewed (bases ++ [base]) r = viewed bases (r.substitute base.withoutByRef.arguments) :=
  List.foldr_append

/-- **One base type further.** -/
theorem Composes.up {arguments : List TypeRef} (harguments : s.Composes bases h arguments) (hentry : s.entry? h = some entry)
    (hbase : base ∈ entry.facts.parent?) (hk : s.resolve base = some k) (hfurnished : s.Furnishes base)
    (hplain : base.isByRef = false) : s.Composes (bases ++ [base]) k (base.substitute arguments).arguments := by
  intro entry' hentry' r hr
  obtain ⟨ns, name, declaring, own, rfl⟩ := exists_named_of_resolve hk hplain
  have hcovered : ∀ p ∈ r.positions, p < own.length := by
    intro p hp
    obtain ⟨q, hq, hmem⟩ := hr p hp
    exact hfurnished entry' (by rw [hk]; exact hentry') q hq p hmem
  have hwithin : Within entry (r.substitute own) := by
    intro p hp
    obtain ⟨a, ha, hpa⟩ := mem_positions_substitute hcovered hp
    exact ⟨_, TypeEntry.mem_lineageRefs_of_super (mem_supers.2 (Or.inr hbase)), mem_positionsAll.2 ⟨a, ha, hpa⟩⟩
  calc r.substitute (substituteAll arguments own)
      = (r.substitute own).substitute arguments := by
        rw [substituteAll_eq_map, substitute_substitute _ _ _ hcovered]
    _ = viewed bases (r.substitute own) := harguments entry hentry _ hwithin
    _ = viewed (bases ++ [TypeRef.named ns name declaring own]) r := (viewed_concat bases (.named ns name declaring own) r).symm

/-! ## Slots on the way up -/

theorem ownSlots_ne_nil_iff {arguments : List TypeRef} {name : String} (harguments : s.Composes bases h arguments)
    (hentry : s.entry? h = some entry) : ownSlots h entry arguments name ≠ [] ↔ s.Implements bases h name := by
  have hsame : ∀ m ∈ entry.members, ∀ i ∈ m.implemented, i.substitute arguments = viewed bases i := fun m hm i hi =>
    harguments entry hentry i (within_of_mem (TypeEntry.mem_lineageRefs_of_member hm hi))
  constructor
  · intro hslots
    obtain ⟨slot, hslot⟩ := List.exists_mem_of_ne_nil _ hslots
    obtain ⟨m, index, hm, hstands, -⟩ := mem_ownSlots_iff.1 hslot
    have hm := List.mem_of_getElem? hm
    obtain ⟨i, hi, hname⟩ := MemberEntry.standsIn_iff.1 hstands
    exact ⟨entry, hentry, m, hm, i, hi, hsame m hm i hi ▸ hname⟩
  · rintro ⟨entry', hentry', m, hm, i, hi, hname⟩
    obtain rfl := Option.some.inj (hentry.symm.trans hentry')
    obtain ⟨index, hindex⟩ := List.mem_iff_getElem?.1 hm
    have hstands : m.standsIn arguments name = true := MemberEntry.standsIn_iff.2 ⟨i, hi, (hsame m hm i hi).symm ▸ hname⟩
    exact List.ne_nil_of_mem (mem_ownSlots_iff.2 ⟨m, index, hindex, hstands, rfl⟩)

/-- the slots of an interface are those of the type itself, if it has any -/
theorem slotsFrom_here {arguments : List TypeRef} {name : String} {steps : Nat} {visited : List TypeHandle}
    (hnew : h ∉ visited) (hentry : s.entry? h = some entry) (hslots : ownSlots h entry arguments name ≠ []) :
    s.slotsFrom name (steps + 1) visited h arguments = ownSlots h entry arguments name := by
  rw [slotsFrom, if_neg (by simpa using hnew), hentry]
  dsimp only
  split
  · next hnone => exact absurd hnone hslots
  · rfl

/-- or else those of its base type -/
theorem slotsFrom_up {arguments : List TypeRef} {name : String} {steps : Nat} {visited : List TypeHandle}
    (hnew : h ∉ visited) (hentry : s.entry? h = some entry) (hslots : ownSlots h entry arguments name = [])
    (hbase : base ∈ entry.facts.parent?) (hk : s.resolve base = some k) (hplain : base.isByRef = false) :
    s.slotsFrom name (steps + 1) visited h arguments =
      s.slotsFrom name steps (h :: visited) k (base.substitute arguments).arguments := by
  have hk' : s.resolve (base.substitute arguments) = some k := by
    obtain ⟨ns, name, declaring, own, rfl⟩ := exists_named_of_resolve hk hplain
    rw [resolve_substitute _ rfl, hk]
  rw [slotsFrom, if_neg (by simpa using hnew), hentry]
  dsimp only
  rw [hslots, baseType_of_mem_parent? hbase]
  dsimp only
  rw [hk']

/-- there are slots, and all of them are filled by members of one type -/
def FilledBy (near : TypeHandle) (slots : List InterfaceSlot) : Prop :=
  slots ≠ [] ∧ ∀ slot ∈ slots, slot.implementation.owner = near

theorem filledBy_ownSlots {arguments : List TypeRef} {name : String} (hslots : ownSlots h entry arguments name ≠ []) :
    FilledBy h (ownSlots h entry arguments name) := by
  refine ⟨hslots, fun slot hslot => ?_⟩
  obtain ⟨m, index, -, -, rfl⟩ := mem_ownSlots_iff.1 hslot
  rfl

/-- from a type, which is reached by some base types, further ones lead to the first that implements the interface of a
name -/
structure Nearest (s : FactSet) (walked : List TypeRef) (h : TypeHandle) (bases : List TypeRef) (name : String)
    (near : TypeHandle) : Prop where
  ascends : s.Ascends h bases near
  implements : s.Implements (walked ++ bases) near name
  first : ∀ nearer k, nearer <+: bases → nearer ≠ bases → s.Ascends h nearer k → ¬s.Implements (walked ++ nearer) k name

theorem nearest_here {walked : List TypeRef} {name : String} (hown : s.Implements walked h name) :
    s.Nearest walked h [] name h where
  ascends := .here h
  implements := (List.append_nil walked).symm ▸ hown
  first _ _ hprefix hne := absurd (List.prefix_nil.1 hprefix) hne

theorem Nearest.up {walked : List TypeRef} {name : String} {near : TypeHandle} (hown : ¬s.Implements walked h name)
    (hentry : s.entry? h = some entry) (hbase : base ∈ entry.facts.parent?) (hk : s.resolve base = some k)
    (hnear : s.Nearest (walked ++ [base]) k bases name near) : s.Nearest walked h (base :: bases) name near where
  ascends := .up hentry hbase hk hnear.ascends
  implements := by
    rw [List.append_cons]
    exact hnear.implements
  first := by
    intro nearer l hprefix hne hascends
    cases hascends with
    | here => rwa [List.append_nil]
    | up hentry' hbase' hk' hrest =>
      obtain ⟨rfl, hprefix'⟩ := List.cons_prefix_cons.1 hprefix
      obtain rfl := Option.some.inj (hk.symm.trans hk')
      rw [List.append_cons]
      exact hnear.first _ _ hprefix' (fun heq => hne (heq ▸ rfl)) hrest

/-- **The walk.** Where a type up the line implements the interface, the slots are those of the nearest type that does. -/
theorem exists_nearest (hs : s.Acyclic) {name : String} (hchain : s.Ascends h bases ancestor)
    (hplain : ∀ base ∈ bases, base.isByRef = false) (hfurnished : ∀ base ∈ bases, s.Furnishes base)
    {walked arguments : List TypeRef} {visited : List TypeHandle} {steps : Nat} (harguments : s.Composes walked h arguments)
    (hvisited : ∀ v ∈ visited, Relation.TransGen s.Leads v h) (hsteps : s.height h < steps)
    (hname : s.Implements (walked ++ bases) ancestor name) :
    ∃ bases' near, bases' <+: bases ∧ s.Nearest walked h bases' name near ∧
      FilledBy near (s.slotsFrom name steps visited h arguments) := by
  -- without cycles no type is met twice, and the steps last as long as the height falls
  induction hchain generalizing walked arguments visited steps with
  | here h =>
    have hnew : h ∉ visited := fun hmem => hs h (hvisited h hmem)
    rw [List.append_nil] at hname
    obtain ⟨entry, hentry, -⟩ := id hname
    have hslots := (ownSlots_ne_nil_iff harguments hentry).2 hname
    obtain ⟨steps, rfl⟩ := Nat.exists_eq_add_one_of_ne_zero (Nat.ne_zero_of_lt hsteps)
    refine ⟨[], h, List.nil_prefix, nearest_here hname, ?_⟩
    rw [slotsFrom_here hnew hentry hslots]
    exact filledBy_ownSlots hslots
  | @up h k ancestor entry base bases hentry hbase hk hrest ih =>
    have hnew : h ∉ visited := fun hmem => hs h (hvisited h hmem)
    obtain ⟨steps, rfl⟩ := Nat.exists_eq_add_one_of_ne_zero (Nat.ne_zero_of_lt hsteps)
    by_cases hslots : ownSlots h entry arguments name = []
    · have hown : ¬s.Implements walked h name := fun hown => (ownSlots_ne_nil_iff harguments hentry).2 hown hslots
      have hplainBase := hplain base List.mem_cons_self
      have hlead : s.Leads h k := leads_of_parent hentry hbase hk
      have hvisited' : ∀ v ∈ h :: visited, Relation.TransGen s.Leads v k := by
        intro v hv
        rcases List.mem_cons.1 hv with rfl | hv
        · exact .single hlead
        · exact (hvisited v hv).tail hlead
      have hheight : s.height k < steps := by
        have := height_lt hs hlead
        omega
      obtain ⟨bases', near, hprefix, hnear, hfilled⟩ := ih
        (fun b hb => hplain b (List.mem_cons_of_mem _ hb)) (fun b hb => hfurnished b (List.mem_cons_of_mem _ hb))
        (harguments.up hentry hbase hk (hfurnished base List.mem_cons_self) hplainBase) hvisited' hheight
        (List.append_cons walked base bases ▸ hname)
      refine ⟨base :: bases', near, List.cons_prefix_cons.2 ⟨rfl, hprefix⟩, hnear.up hown hentry hbase hk, ?_⟩
      rw [slotsFrom_up hnew hentry hslots hbase hk hplainBase]
      exact hfilled
    · refine ⟨[], h, List.nil_prefix, nearest_here ((ownSlots_ne_nil_iff harguments hentry).1 hslots), ?_⟩
      rw [slotsFrom_here hnew hentry hslots]
      exact filledBy_ownSlots hslots

/-! ## Interface lists on the way down -/

variable {hs : s.Acyclic}

theorem TellingUp.tail (htelling : s.TellingUp h (base :: bases)) (hentry : s.entry? h = some entry)
    (hbase : base ∈ entry.facts.parent?) (hk : s.resolve base = some k) : s.TellingUp k bases := fun nearer l hprefix hl =>
  htelling (base :: nearer) l (List.cons_prefix_cons.2 ⟨rfl, hprefix⟩) (.up hentry hbase hk hl)

/-- where names tell interfaces apart, nothing is left out of what is gathered -/
theorem TellingUp.gathered_subset (htelling : s.TellingUp h bases) : s.gathered (s.lineage hs) h ⊆ s.lineage hs h := by
  intro i hi
  have hbrings : ∀ j ∈ s.gathered (s.lineage hs) h, s.Brings h j := fun j hj =>
    brings_of_mem_gathered (fun _ _ _ hl => brings_of_mem_lineage hl) hj
  have htell : NamesTell (s.gathered (s.lineage hs) h) := fun i hi j hj hname =>
    htelling [] h List.nil_prefix (.here h) i j (hbrings i hi) (hbrings j hj) hname
  rw [lineage_eq, distinct_eq htell]
  exact List.mem_eraseDups.2 hi

/-- **On the way down nothing is lost**: what a base type declares is in the list of the first type. -/
theorem Ascends.mem_lineage (hchain : s.Ascends h bases ancestor) (htelling : s.TellingUp h bases)
    (hentry : s.entry? ancestor = some entry) (hi : i ∈ entry.facts.interfaces) : viewed bases i ∈ s.lineage hs h := by
  induction hchain with
  | here h =>
    apply htelling.gathered_subset
    rw [gathered, facts?_of_found hentry]
    exact List.mem_append_left _ (List.mem_flatMap.2 ⟨i, hi, List.mem_cons_self⟩)
  | up hentry' hbase hk _ ih =>
    apply htelling.gathered_subset
    rw [gathered, facts?_of_found hentry']
    refine List.mem_append_right _ (List.mem_flatMap.2 ⟨_, Option.mem_toList.2 hbase, ?_⟩)
    exact mem_via.2 ⟨_, hk, _, ih (htelling.tail hentry' hbase hk) hentry, rfl⟩

/-- **Interfaces in the list.** What a type has by its declarations and base types is listed unless the base type brings in
something of that name and no member of the type implements it anew. -/
theorem mem_directInterfaces_iff (hs : s.Acyclic) (hentry : s.entry? h = some entry)
    (hkind : entry.facts.kind ≠ .interfaceType) (hi : i ∈ s.lineage hs h) :
    i.canonicalName ∈ (alone (s.directInterfaces (fun _ => true) h)).map canonicalName ↔
      (i.canonicalName ∉ (entry.facts.parent?.toList.flatMap (s.via (s.lineage hs))).map canonicalName ∨
        s.Implements [] h i.canonicalName) := by
  have hanswer : Answers hs _ (s.directInterfaces (fun _ => true) h) _ :=
    answers_directInterfaces_other _ (facts?_of_found hentry) hkind
  rw [hanswer.alone_eq, List.filter_true]
  have hown : ∀ j : TypeRef, (s.interfaceMap h j).any (fun slot => slot.implementation.owner == h) = true ↔
      s.Implements [] h j.canonicalName := by
    intro j
    rw [interfaceMap_any_owner hentry, List.any_eq_true]
    constructor
    · rintro ⟨m, hm, hstands⟩
      obtain ⟨r, hr, hname⟩ := MemberEntry.standsIn_iff.1 hstands
      exact ⟨entry, hentry, m, hm, r, hr, substitute_nil r ▸ hname⟩
    · rintro ⟨entry', hentry', m, hm, r, hr, hname⟩
      obtain rfl := Option.some.inj (hentry.symm.trans hentry')
      exact ⟨m, hm, MemberEntry.standsIn_iff.2 ⟨r, hr, (substitute_nil r).symm ▸ hname⟩⟩
  constructor
  · intro hmem
    obtain ⟨j, hj, hname⟩ := List.mem_map.1 hmem
    have hkept := (List.mem_filter.1 hj).2
    rw [Bool.or_eq_true, hown, hname] at hkept
    simpa using hkept
  · intro hkept
    refine List.mem_map_of_mem (List.mem_filter.2 ⟨hi, ?_⟩)
    rw [Bool.or_eq_true, hown]
    simpa using hkept

/-! ## Both walks -/

/-- **Inherited interfaces.** Take an interface that a type up the line of base types declares and implements by a member,
with the arguments put in from there down. Its slots are those of the nearest type on the line that implements it, unless
managed references stand between; and it is listed by the type at the beginning of the line exactly when a member of its own
implements it, where names tell interfaces apart. -/
theorem interfaces_inherited (hs : s.Acyclic) (hchain : s.Ascends h bases ancestor)
    (hfurnished : ∀ base ∈ bases, s.Furnishes base) {derived : TypeEntry} (hderived : s.entry? h = some derived)
    (hkind : derived.facts.kind ≠ .interfaceType) (hentry : s.entry? ancestor = some entry) (hi : i ∈ entry.facts.interfaces)
    {m : MemberEntry} (hm : m ∈ entry.members) (himplemented : i ∈ m.implemented) :
    ((∀ base ∈ bases, base.isByRef = false) → ∃ nearest near, nearest <+: bases ∧
      s.Nearest [] h nearest (viewed bases i).canonicalName near ∧
      FilledBy near (s.interfaceMap h (viewed bases i))) ∧
    (s.TellingUp h bases → ((viewed bases i).canonicalName ∈
      (alone (s.directInterfaces (fun _ => true) h)).map canonicalName ↔ s.Implements [] h (viewed bases i).canonicalName)) := by
  have hname : s.Implements bases ancestor (viewed bases i).canonicalName := ⟨entry, hentry, m, hm, i, himplemented, rfl⟩
  refine ⟨fun hplain => ?_, fun htelling => ?_⟩
  · exact exists_nearest hs hchain hplain hfurnished (composes_nil s h) (fun _ hv => absurd hv List.not_mem_nil)
      (Nat.lt_succ_of_le (s.height_le h)) hname
  · rw [mem_directInterfaces_iff hs hderived hkind (hchain.mem_lineage htelling hentry hi)]
    refine ⟨fun hlisted => ?_, Or.inr⟩
    cases hchain with
    | here => exact hname
    | up hentry' hbase hk hrest =>
      -- the base type brings the interface in, so a member of the type itself is what has it listed
      obtain rfl := Option.some.inj (hderived.symm.trans hentry')
      refine hlisted.resolve_left fun hnew => hnew (List.mem_map_of_mem ?_)
      refine List.mem_flatMap.2 ⟨_, Option.mem_toList.2 hbase, mem_via.2 ⟨_, hk, _, ?_, rfl⟩⟩
      exact hrest.mem_lineage (htelling.tail hderived hbase hk) hentry hi

/-! ## Albums -/

/-- a method that implements interfaces -/
def methodOf (interfaces : List TypeRef) : MemberEntry :=
  let m := methodFacts .pub (.topLevel "" "Circle")
  { m with facts := { m.facts with implements := interfaces } }

/-- a class over another, without members -/
def classUnder (reference base : TypeRef) : TypeEntry :=
  let entry := bareType .classType .pub reference []
  { entry with facts := { entry.facts with baseType := some base } }

def circle : TypeRef := .topLevel "" "Circle"

/-- arrays of the second type parameter -/
def arraysOfU : TypeRef := .array (.parameter "U" 1 false) 1

/-- a list of what it is an album of, and a class over an album of arrays of its second parameter -/
def albums : FactSet where
  identity := "Shapes"
  entries := [
    bareType .interfaceType .pub (interfaceOf "IList" typeT) [],
    { bareType .classType .pub (interfaceOf "Album" typeT) [interfaceOf "IList" typeT] with
      members := [methodOf [interfaceOf "IList" typeT]] },
    classUnder (.named none "Series\x602" none [typeT, .parameter "U" 1 false]) (interfaceOf "Album" arraysOfU),
    classUnder (.topLevel "" "Sketches") (.named none "Series\x602" none [.topLevel "" "Square", circle])]

/-- the sketches are lists of arrays of circles, by the album's member only -/
theorem interfaces_inherited_albums :
    ∃ bases, albums.Ascends ⟨3⟩ bases ⟨1⟩ ∧
      viewed bases (interfaceOf "IList" typeT) = interfaceOf "IList" (.array circle 1) ∧
      (∃ nearest near, nearest <+: bases ∧ albums.Nearest [] ⟨3⟩ nearest "IList<Circle[]>" near ∧
        FilledBy near (albums.interfaceMap ⟨3⟩ (interfaceOf "IList" (.array circle 1)))) ∧
      "IList<Circle[]>" ∉ (alone (albums.directInterfaces (fun _ => true) ⟨3⟩)).map canonicalName := by
  have hchain : albums.Ascends ⟨3⟩ [.named none "Series\x602" none [.topLevel "" "Square", circle],
      interfaceOf "Album" arraysOfU] ⟨1⟩ := by
    have hseries : albums.resolve (.named none "Series\x602" none [.topLevel "" "Square", circle]) = some ⟨2⟩ := by decide
    exact .up rfl rfl hseries (.up rfl rfl (by decide) (.here _))
  have htelling := telling_of_lists (s := albums)
    [[], [interfaceOf "IList" typeT], [interfaceOf "IList" arraysOfU], [interfaceOf "IList" (.array circle 1)]]
    (by decide) (by decide)
  obtain ⟨hslots, hlisted⟩ := interfaces_inherited (i := interfaceOf "IList" typeT) (m := methodOf [interfaceOf "IList" typeT])
    (acyclic_of_earlier (by decide)) hchain (by decide) rfl (by decide) rfl (by decide) (by decide) (by decide)
  refine ⟨_, hchain, by decide, hslots (by decide), fun hmem => ?_⟩
  obtain ⟨entry, hentry, m, hm, -⟩ := (hlisted fun _ k _ _ => htelling k).1 hmem
  obtain rfl := Option.some.inj hentry
  cases hm

/-- an album is a list of its parameter `T`, and one of a type of that name; one class over it is a list of the latter too,
another one extends it by a managed reference -/
def lookalikes : FactSet where
  identity := "Shapes"
  entries := [
    bareType .interfaceType .pub (interfaceOf "IList" typeT) [],
    { bareType .classType .pub (interfaceOf "Album" typeT)
        [interfaceOf "IList" typeT, interfaceOf "IList" (.topLevel "" "T")] with
      members := [methodOf [interfaceOf "IList" typeT, interfaceOf "IList" (.topLevel "" "T")]] },
    { classUnder (.topLevel "" "Sketches") (interfaceOf "Album" circle) with
      members := [methodOf [interfaceOf "IList" (.topLevel "" "T")]] },
    classUnder (.topLevel "" "Copies") (.byRef (interfaceOf "Album" circle))]

/-- **Interfaces may be lost on either way.** The one that has the name of another is left out of the album's list, so it is not
listed by a class over the album that implements it; and no slots are found through a managed reference. -/
theorem interfaces_lost :
    lookalikes.Acyclic ∧ (∀ h facts, lookalikes.facts? h = some facts → ∀ r ∈ facts.supers, lookalikes.Furnishes r) ∧
      (∃ album ∈ lookalikes.entry? ⟨1⟩, ∀ i ∈ [interfaceOf "IList" typeT, interfaceOf "IList" (.topLevel "" "T")],
        i ∈ album.facts.interfaces ∧ ∃ m ∈ album.members, i ∈ m.implemented) ∧
      lookalikes.Ascends ⟨2⟩ [interfaceOf "Album" circle] ⟨1⟩ ∧
      viewed [interfaceOf "Album" circle] (interfaceOf "IList" (.topLevel "" "T")) = interfaceOf "IList" (.topLevel "" "T") ∧
      lookalikes.Implements [] ⟨2⟩ (interfaceOf "IList" (.topLevel "" "T")).canonicalName ∧
      alone (lookalikes.directInterfaces (fun _ => true) ⟨2⟩) = [] ∧
      lookalikes.Ascends ⟨3⟩ [.byRef (interfaceOf "Album" circle)] ⟨1⟩ ∧
      viewed [.byRef (interfaceOf "Album" circle)] (interfaceOf "IList" typeT) = interfaceOf "IList" circle ∧
      lookalikes.interfaceMap ⟨3⟩ (interfaceOf "IList" circle) = [] := by
  refine ⟨acyclic_of_earlier (by decide), of_facts? (by decide), ⟨_, rfl, by decide⟩, .up rfl rfl (by decide) (.here _),
    by decide, ?_, by decide, .up rfl rfl (by decide) (.here _), by decide, by decide⟩
  exact ⟨_, rfl, _, List.mem_cons_self, _, List.mem_cons_self, rfl⟩

end FactSet

end ApiSurface
