/-
What an extraction walks through: the members of a type that are kept, and the types of the module that are exported.

`isExported_congr`: only references and visibilities have a say in what is exported.
`describeMembers_eq`: members are described one by one.
`map_keptAmong`, `map_exportedWith`: by their handles, members and types are found in the order in which they are declared.
`describeTypes_checked`: so are types, and names may as well be compared at the end.
`sort_extracted`: what comes of it is sorted.
-/
import ApiSurface.Proofs.Extraction.TwoRuns
import ApiSurface.Proofs.Extraction.Validity
import ApiSurface.Proofs.Listing.Sorting

namespace ApiSurface

/-! ## Looking up -/

section

variable {η ε : Type} (look : η → Option ε)

/-- what is found by handles, along with these -/
def found (handles : List η) : List (η × ε) := handles.filterMap fun h => (look h).map fun e => (h, e)

variable {look}

theorem look_of_mem_found {handles : List η} {p : η × ε} (hp : p ∈ found look handles) : look p.1 = some p.2 := by
  obtain ⟨h, -, hh⟩ := List.mem_filterMap.1 hp
  obtain ⟨e, he, rfl⟩ := Option.map_eq_some_iff.1 hh
  exact he

variable (look) in
theorem map_found (handles : List η) : (found look handles).map Prod.snd = handles.filterMap look := by
  rw [found, List.map_filterMap]
  congr 1
  funext h
  rw [Option.map_map]
  exact Option.map_id' ..

theorem found_cons_none {h : η} (hh : look h = none) (rest : List η) : found look (h :: rest) = found look rest :=
  List.filterMap_cons_none (by rw [hh]; rfl)

theorem found_cons_some {h : η} {e : ε} (hh : look h = some e) (rest : List η) :
    found look (h :: rest) = (h, e) :: found look rest :=
  List.filterMap_cons_some (by rw [hh]; rfl)

end

/-- the places of a list hold its entries -/
theorem filterMap_range {α : Type} (xs : List α) : (List.range xs.length).filterMap (fun index => xs[index]?) = xs := by
  have hsome : (List.range xs.length).map (fun index => xs[index]?) = xs.map some := by
    apply List.ext_getElem
    · simp
    · intro index hindex hindex'
      simp
  calc
    _ = ((List.range xs.length).map fun index => xs[index]?).filterMap id := by
      rw [List.filterMap_map]
      rfl
    _ = xs := by rw [hsome, List.filterMap_map, Function.id_comp, List.filterMap_some]

namespace FactSet

open Extracting

variable (s : FactSet) (f : VisibilityFilter)

/-- a type is exported by itself and by what declares it -/
theorem isExported_eq (facts : TypeFacts) : s.isExported f facts =
    (f.keeps facts.visibility && (facts.reference.declaring?.bind s.definition?).all (s.isExported f)) := by
  rw [isExported]
  congr 1
  split
  · next hnone => rw [hnone, Option.bind_none, Option.all_none]
  · next declaring hdeclaring =>
    rw [hdeclaring, Option.bind_some]
    split
    · next hnone => rw [hnone, Option.all_none]
    · next outer houter => rw [houter, Option.all_some]

/-- what has a say in whether a type is exported -/
def exposure (facts : TypeFacts) : TypeRef × Visibility := (facts.reference, facts.visibility)

variable {s f} in
/-- so the same is exported if definitions are the same in that -/
theorem isExported_congr {s' : FactSet} (hdefinition : ∀ r, (s.definition? r).map exposure = (s'.definition? r).map exposure)
    {facts facts' : TypeFacts} (hfacts : exposure facts = exposure facts') : s.isExported f facts = s'.isExported f facts' := by
  induction facts using isExported.induct s generalizing facts' with
  | case1 facts ih =>
    obtain ⟨hreference, hvisibility⟩ := Prod.mk.inj hfacts
    rw [isExported_eq, isExported_eq, ← hreference, ← hvisibility]
    congr 1
    cases hdeclaring : facts.reference.declaring? with
    | none => rfl
    | some declaring =>
      have houters := hdefinition declaring
      rw [Option.bind_some, Option.bind_some]
      cases houter : s.definition? declaring with
      | none =>
        rw [houter, Option.map_none] at houters
        rw [Option.map_eq_none_iff.1 houters.symm, Option.all_none, Option.all_none]
      | some outer =>
        rw [houter, Option.map_some] at houters
        obtain ⟨outer', houter', hsame⟩ := Option.map_eq_some_iff.1 houters.symm
        rw [houter', Option.all_some, Option.all_some]
        exact ih declaring hdeclaring outer houter hsame.symm

variable {s} in
theorem isVisible_congr {s' : FactSet} (hdefinition : ∀ r, (s.definition? r).map exposure = (s'.definition? r).map exposure) :
    s.isVisible f = s'.isVisible f := by
  funext r
  have hr := hdefinition r
  rw [isVisible, isVisible]
  cases hfacts : s.definition? r with
  | none =>
    rw [hfacts, Option.map_none] at hr
    rw [Option.map_eq_none_iff.1 hr.symm]
  | some facts =>
    rw [hfacts, Option.map_some] at hr
    obtain ⟨facts', hfacts', hsame⟩ := Option.map_eq_some_iff.1 hr.symm
    rw [hfacts']
    exact isExported_congr hdefinition hsame.symm

/-- where no type is nested, a type that is known is exported by itself -/
theorem isExported_flat (hflat : ∀ entry ∈ s.entries, entry.facts.reference.declaring? = none) {entry : TypeEntry}
    (hentry : entry ∈ s.entries) : s.isExported f entry.facts = f.keeps entry.facts.visibility := by
  rw [isExported_eq, hflat entry hentry, Option.bind_none, Option.all_none, Bool.and_true]

theorem isVisible_flat (hflat : ∀ entry ∈ s.entries, entry.facts.reference.declaring? = none) :
    s.isVisible f = fun r => (s.definition? r).all fun facts => f.keeps facts.visibility := by
  funext r
  unfold isVisible
  cases hfacts : s.definition? r with
  | none => rfl
  | some facts =>
    obtain ⟨h, -, hh⟩ := Option.bind_eq_some_iff.1 hfacts
    obtain ⟨entry, hentry, rfl⟩ := Option.map_eq_some_iff.1 hh
    exact s.isExported_flat f hflat (List.mem_of_getElem? hentry)

/-! ## Members -/

/-- the members that are described, with their handles -/
def keptAmong (owner : TypeKind) (handles : List MemberHandle) : List (MemberHandle × MemberEntry) :=
  (found s.member? handles).filter fun p => s.keepsMember f owner p.2.facts

theorem describeMembers_eq (owner : TypeKind) (context : String) (interfaces : List TypeRef) (handles : List MemberHandle) :
    s.describeMembers f owner context interfaces handles =
      (s.keptAmong f owner handles).mapM fun p => s.describeMember f owner context interfaces p.1 p.2 := by
  induction handles with
  | nil => rfl
  | cons k rest ih =>
    rw [describeMembers, keptAmong]
    cases hm : s.member? k with
    | none =>
      rw [found_cons_none hm]
      exact ih
    | some m =>
      rw [found_cons_some hm, List.filter_cons]
      dsimp only
      split
      · rw [List.mapM_cons, ih]
        rfl
      · exact ih

variable {s f} in
theorem member?_of_mem_keptAmong {owner : TypeKind} {handles : List MemberHandle} {p : MemberHandle × MemberEntry}
    (hp : p ∈ s.keptAmong f owner handles) : s.member? p.1 = some p.2 :=
  look_of_mem_found (List.mem_filter.1 hp).1

variable {s} in
theorem map_keptAmong {h : TypeHandle} {entry : TypeEntry} (hentry : s.entry? h = some entry) (owner : TypeKind) :
    (s.keptAmong f owner (s.membersOf h)).map Prod.snd = entry.members.filter fun m => s.keepsMember f owner m.facts := by
  have hmembers : (found s.member? (s.membersOf h)).map Prod.snd = entry.members := by
    rw [map_found, membersOf, hentry, Option.map_some, Option.getD_some, List.filterMap_map]
    refine Eq.trans (List.filterMap_congr fun index _ => ?_) (filterMap_range entry.members)
    rw [Function.comp_apply, member?, hentry, Option.bind_some]
  rw [keptAmong, ← hmembers, List.filter_map]
  rfl

variable {s} in
/-- which interface a member implements without naming it depends on no other member -/
theorem implementedInterface_eq {k : MemberHandle} {m : MemberEntry} (hm : s.member? k = some m)
    (interfaces : List TypeRef) :
    s.implementedInterface interfaces k = interfaces.find? fun i => m.standsIn [] i.canonicalName := by
  obtain ⟨entry, hentry, hm⟩ := Option.bind_eq_some_iff.1 hm
  unfold implementedInterface
  simp only [interfaceMap_any_self hentry hm]

/-! ## Types -/

/-- the types that are described, with their handles -/
def exportedWith (handles : List TypeHandle) : List (TypeHandle × TypeEntry) :=
  (found s.entry? handles).filter fun p => s.isExported f p.2.facts

variable {s f} in
theorem entry?_of_mem_exportedWith {handles : List TypeHandle} {p : TypeHandle × TypeEntry}
    (hp : p ∈ s.exportedWith f handles) : s.entry? p.1 = some p.2 :=
  look_of_mem_found (List.mem_filter.1 hp).1

theorem exportedWith_cons {h : TypeHandle} {entry : TypeEntry} (hentry : s.entry? h = some entry) (rest : List TypeHandle) :
    s.exportedWith f (h :: rest) =
      if s.isExported f entry.facts then (h, entry) :: s.exportedWith f rest else s.exportedWith f rest := by
  rw [exportedWith, found_cons_some hentry]
  exact List.filter_cons

theorem map_exportedWith : (s.exportedWith f s.moduleTypes).map Prod.snd = s.exported f := by
  rw [← exportedAmong_moduleTypes, exportedAmong, ← map_found, List.filter_map]
  rfl

/-- the handles of the module depend on nothing but which types are dependencies -/
theorem moduleTypes_eq : s.moduleTypes = (s.entries.map TypeEntry.isDependency).zipIdx.filterMap fun (isDependency, index) =>
    if isDependency then none else some ⟨index⟩ := by
  unfold moduleTypes
  rw [List.zipIdx_map, List.filterMap_map]
  rfl

/-- the handles of the module are those of the types that are no dependencies -/
theorem mem_moduleTypes_iff {h : TypeHandle} :
    h ∈ s.moduleTypes ↔ ∃ entry, s.entry? h = some entry ∧ entry.isDependency = false := by
  unfold moduleTypes
  rw [List.mem_filterMap]
  constructor
  · rintro ⟨⟨entry, index⟩, hmem, hindex⟩
    obtain ⟨hmodule, hsome⟩ := Option.ite_none_left_eq_some.1 hindex
    cases hsome
    exact ⟨entry, List.mem_zipIdx_iff_getElem?.1 hmem, by simpa using hmodule⟩
  · rintro ⟨entry, hentry, hmodule⟩
    exact ⟨(entry, h.index), List.mem_zipIdx_iff_getElem?.2 hentry, by simp [hmodule]⟩

/-- so they are known -/
theorem entry?_isSome_of_mem_moduleTypes {h : TypeHandle} (hh : h ∈ s.moduleTypes) : ∃ entry, s.entry? h = some entry := by
  obtain ⟨entry, hentry, -⟩ := s.mem_moduleTypes_iff.1 hh
  exact ⟨entry, hentry⟩

/-- types are described after those that come before them -/
theorem describeTypes_append (members : TypeHandle → List MemberHandle) (names : List String) (handles more : List TypeHandle) :
    s.describeTypes f members names (handles ++ more) = (do
      let ts ← s.describeTypes f members names handles
      let others ← s.describeTypes f members ((ts.map TypeDescriptor.name).reverse ++ names) more
      return ts ++ others) := by
  induction handles generalizing names with
  | nil =>
    rw [List.nil_append, describeTypes, pure_bind]
    exact (bind_pure _).symm
  | cons h rest ih =>
    rw [List.cons_append, describeTypes, describeTypes]
    cases s.entry? h with
    | none => rfl
    | some entry =>
      dsimp only
      split
      · rw [bind_assoc]
        refine congrArg (_ >>= ·) (funext fun t => ?_)
        split
        · rfl
        · rw [ih, bind_assoc, bind_assoc]
          simp only [bind_assoc, pure_bind, List.map_cons, List.reverse_cons, List.append_assoc, List.cons_append,
            List.nil_append]
      · exact ih names

variable {s} {hs : s.Acyclic}

/-- described types, if no two have one name and none a name from before -/
def checked (names : List String) (ts : List TypeDescriptor) : Extracting (List TypeDescriptor) :=
  if (ts.map TypeDescriptor.name).Nodup ∧ ∀ t ∈ ts, t.name ∉ names then pure ts else throw (.duplicateType "")

theorem checked_cons_of_mem {names : List String} {t : TypeDescriptor} (hmem : t.name ∈ names) (ts : List TypeDescriptor) :
    checked names (t :: ts) = throw (.duplicateType "") :=
  if_neg fun h => h.2 t List.mem_cons_self hmem

theorem checked_cons_of_not_mem {names : List String} {t : TypeDescriptor} (hnew : t.name ∉ names)
    (ts : List TypeDescriptor) :
    checked names (t :: ts) = checked (t.name :: names) ts >>= fun others => pure (t :: others) := by
  have hiff : (((t :: ts).map TypeDescriptor.name).Nodup ∧ ∀ u ∈ t :: ts, u.name ∉ names) ↔
      ((ts.map TypeDescriptor.name).Nodup ∧ ∀ u ∈ ts, u.name ∉ t.name :: names) := by
    simp only [List.map_cons, List.nodup_cons, List.mem_map, List.mem_cons]
    grind
  unfold checked
  simp only [hiff]
  split
  · rfl
  · rfl

/-- **Names may as well be compared at the end.** -/
theorem describeTypes_checked (members : TypeHandle → List MemberHandle) (names : List String)
    {handles : List TypeHandle} (hknown : ∀ h ∈ handles, ∃ entry, s.entry? h = some entry)
    (hsteady : ∀ p ∈ s.exportedWith f handles, Steady hs (s.describeType f p.1 p.2 (members p.1))) :
    Agree hs hs (fun ts ts' => ts = ts') (s.describeTypes f members names handles)
      (((s.exportedWith f handles).mapM fun p => s.describeType f p.1 p.2 (members p.1)) >>= checked names) := by
  induction handles generalizing names with
  | nil => exact agree_pure rfl
  | cons h rest ih =>
    obtain ⟨entry, hentry⟩ := hknown h List.mem_cons_self
    have hrest : ∀ h ∈ rest, ∃ entry, s.entry? h = some entry := fun h hh => hknown h (List.mem_cons_of_mem _ hh)
    rw [exportedWith_cons s f hentry] at hsteady ⊢
    rw [describeTypes, hentry]
    dsimp only
    split
    · next hexported =>
      rw [if_pos hexported] at hsteady
      have hothers : ∀ p ∈ s.exportedWith f rest, Steady hs (s.describeType f p.1 p.2 (members p.1)) :=
        fun p hp => hsteady p (List.mem_cons_of_mem _ hp)
      rw [List.mapM_cons, bind_assoc]
      refine (hsteady (h, entry) List.mem_cons_self).agree.bind ?_
      rintro t _ rfl
      rw [bind_assoc]
      simp only [pure_bind]
      split
      · next hmem =>
        simp only [checked_cons_of_mem (List.contains_iff_mem.1 hmem)]
        exact agree_throw_bind _ _ (Yields.mapM hothers).steady
      · next hnew =>
        simp only [checked_cons_of_not_mem fun hmem => hnew (List.contains_iff_mem.2 hmem)]
        rw [← bind_assoc]
        refine (ih (t.name :: names) hrest hothers).bind ?_
        rintro others _ rfl
        exact agree_pure rfl
    · next hhidden =>
      rw [if_neg hhidden] at hsteady
      exact ih names hrest hsteady

/-! ## Listings -/

theorem extract_eq : s.extract f =
    outcome (s.describeTypes f s.membersOf [] s.moduleTypes) >>= fun ts => .ok ⟨s.identity, Listing.sortTypes ts⟩ := by
  unfold extract extractRoster outcome roster
  cases (s.describeTypes f s.membersOf [] s.moduleTypes).run [] <;> rfl

theorem exists_of_extract {l : Listing} (h : s.extract f = .ok l) :
    ∃ ts, outcome (s.describeTypes f s.membersOf [] s.moduleTypes) = .ok ts ∧ l = ⟨s.identity, Listing.sortTypes ts⟩ := by
  rw [extract_eq] at h
  cases houtcome : outcome (s.describeTypes f s.membersOf [] s.moduleTypes) with
  | error e =>
    rw [houtcome] at h
    cases h
  | ok ts =>
    rw [houtcome] at h
    cases h
    exact ⟨ts, rfl, rfl⟩

/-- what is described in order is listed as it is -/
theorem extract_of_outcome {ts : List TypeDescriptor}
    (hdescribed : outcome (s.describeTypes f s.membersOf [] s.moduleTypes) = .ok (ts.map Listing.sortedType))
    (hmembers : ∀ t ∈ ts, t.members.Pairwise fun a b => decide (a.id ≤ b.id) = true)
    (hsorted : ts.Pairwise fun a b => decide (a.id ≤ b.id) = true) : s.extract f = .ok ⟨s.identity, ts⟩ := by
  rw [extract_eq, hdescribed, Listing.map_sortedType fun t ht => List.mergeSort_of_pairwise (hmembers t ht)]
  exact congrArg (fun ts => Except.ok (Listing.mk _ ts)) (List.mergeSort_of_pairwise hsorted)

theorem ensures_sorted_members (h : TypeHandle) (entry : TypeEntry) (members : List MemberHandle) :
    Ensures (s.describeType f h entry members) fun t => Listing.sortMembers t.members = t.members := by
  unfold describeType
  refine (ensures_true _).bind fun _ _ => ?_
  refine (ensures_true _).bind fun interfaces _ => ?_
  refine (ensures_true _).bind fun generics _ => ?_
  refine (ensures_true _).bind fun described _ => ?_
  exact ensures_pure (sorted_sorted MemberDescriptor.id described)

/-- what is ensured of the description of each type is ensured of all -/
theorem ensures_describeTypes_each {members : TypeHandle → List MemberHandle} {R : TypeEntry → TypeDescriptor → Prop}
    (hR : ∀ h entry, s.entry? h = some entry → Ensures (s.describeType f h entry (members h)) (R entry)) (names : List String)
    (handles : List TypeHandle) :
    Ensures (s.describeTypes f members names handles) fun ts => List.Forall₂ R (s.exportedAmong f handles) ts := by
  induction handles generalizing names with
  | nil =>
    rw [describeTypes]
    exact ensures_pure .nil
  | cons h rest ih =>
    rw [describeTypes]
    split
    · exact ensures_throw _
    · next entry hentry =>
      rw [exportedAmong_cons s f hentry]
      split
      · refine (hR h entry hentry).bind fun t ht => ?_
        split
        · have hstop : Ensures (throw (.duplicateType t.name) : Extracting PUnit) fun _ => False := ensures_throw _
          exact hstop.bind fun _ hfalse => hfalse.elim
        · exact (ih _).bind fun others hothers => ensures_pure (.cons ht hothers)
      · exact ih names

/-- and so of the types of a listing -/
theorem anyOrder_of_extract {R : TypeEntry → TypeDescriptor → Prop}
    (hR : ∀ h entry, s.entry? h = some entry → Ensures (s.describeType f h entry (s.membersOf h)) (R entry)) {l : Listing}
    (hl : s.extract f = .ok l) : AnyOrder (fun t entry => R entry t) l.types (s.exported f) := by
  obtain ⟨ts, houtcome, rfl⟩ := exists_of_extract f hl
  have hall := (ensures_describeTypes_each f hR [] s.moduleTypes).of_outcome houtcome
  rw [exportedAmong_moduleTypes] at hall
  exact ⟨ts, List.mergeSort_perm _ _, hall.flip⟩

/-- an extracted listing is sorted -/
theorem sort_extracted {l : Listing} (h : s.extract f = .ok l) : l.sort = l := by
  obtain ⟨ts, houtcome, rfl⟩ := exists_of_extract f h
  have hsorted : ∀ t ∈ ts, Listing.sortMembers t.members = t.members := by
    intro t ht
    have hall := (ensures_describeTypes_each f (fun h entry _ => ensures_sorted_members f h entry _) _ _).of_outcome houtcome
    obtain ⟨entry, -, hsorted⟩ := AnyOrder.exists_mem (AnyOrder.symm ⟨_, .refl _, hall⟩) ht
    exact hsorted
  have hmembers : (Listing.sortTypes ts).map Listing.sortedType = Listing.sortTypes ts :=
    Listing.map_sortedType fun t ht => hsorted t ((List.mergeSort_perm _ _).mem_iff.1 ht)
  calc
    _ = Listing.mk s.identity (Listing.sortTypes ((Listing.sortTypes ts).map Listing.sortedType)) := rfl
    _ = Listing.mk s.identity (Listing.sortTypes (Listing.sortTypes ts)) := by rw [hmembers]
    _ = _ := congrArg (Listing.mk _) (sorted_sorted TypeDescriptor.id ts)

end FactSet

end ApiSurface
