/-
Changing what one type declares without changing what types list.

A type may declare other interfaces, as long as it has brought them in before and shows the same of them, first met in the
same order. Then no type shows anything else, whatever it reaches the type through, and none lists anything else.

`filter_lineage_rewired`, `directInterfaces_rewired`: so it is for all types, shown and listed.
`directInterfaces_rerouted`: a hidden interface may be replaced by the visible ones it extends, and an interface may be
declared that another one extends.
`keyed_isVisible`, `isVisible_rewired`: visible may mean exported, before and after.
`placeholder_not_rerouted`: not so if a type parameter is declared as an interface.
-/
import ApiSurface.Proofs.Extraction.Walk
import ApiSurface.Proofs.Interfaces.Brought
import ApiSurface.Proofs.Interfaces.Cache

namespace ApiSurface.FactSet

open TypeRef TypeFacts Resolving

/-! ## One type that declares other interfaces -/

/-- the fact set with other declared interfaces of one type -/
def rewired (s : FactSet) (t : TypeHandle) (interfaces : List TypeRef) : FactSet :=
  { s with entries := s.entries.modify t.index fun entry =>
      { entry with facts := { entry.facts with interfaces := interfaces } } }

variable {s : FactSet} {t h : TypeHandle} {facts : TypeFacts} {interfaces : List TypeRef}

theorem findIdx?_modify {α : Type} {p : α → Bool} {f : α → α} (hf : ∀ x, p (f x) = p x) (xs : List α) (index : Nat) :
    (xs.modify index f).findIdx? p = xs.findIdx? p := by
  induction xs generalizing index with
  | nil => rw [List.modify_nil]
  | cons x rest ih =>
    cases index with
    | zero => rw [List.modify_zero_cons, List.findIdx?_cons, List.findIdx?_cons, hf]
    | succ index => rw [List.modify_succ_cons, List.findIdx?_cons, List.findIdx?_cons, ih]

/-- references are resolved as before -/
theorem resolve_rewired (r : TypeRef) : (s.rewired t interfaces).resolve r = s.resolve r := by
  have hfind : ∀ key, (s.rewired t interfaces).find? key = s.find? key := by
    intro key
    unfold find? rewired
    rw [findIdx?_modify]
    intro entry
    rfl
  unfold resolve
  cases r.withoutByRef.definitionKey? with
  | none => rfl
  | some key => exact hfind key

theorem entry?_rewired (h : TypeHandle) : entry? (s.rewired t interfaces) h = (s.entry? h).map fun entry =>
    if h = t then { entry with facts := { entry.facts with interfaces := interfaces } } else entry := by
  have hindex : t.index = h.index ↔ h = t := by
    cases h
    cases t
    simp [eq_comm]
  unfold entry? rewired
  rw [List.getElem?_modify]
  simp only [hindex]
  rfl

theorem facts?_rewired (h : TypeHandle) : (s.rewired t interfaces).facts? h = (s.facts? h).map fun facts =>
    if h = t then { facts with interfaces := interfaces } else facts := by
  rw [facts?, facts?, entry?_rewired, Option.map_map, Option.map_map]
  congr 1
  funext entry
  rw [Function.comp_apply, Function.comp_apply]
  split <;> rfl

theorem facts?_rewired_self (hfacts : s.facts? t = some facts) :
    (s.rewired t interfaces).facts? t = some { facts with interfaces := interfaces } := by
  rw [facts?_rewired, hfacts, Option.map_some, if_pos rfl]

theorem facts?_rewired_of_ne (hne : h ≠ t) : (s.rewired t interfaces).facts? h = s.facts? h := by
  simp only [facts?_rewired, if_neg hne, Option.map_id']

variable (t interfaces) in
/-- kinds and base types are those from before -/
theorem exists_facts?_rewired (hfacts : s.facts? h = some facts) : ∃ facts', (s.rewired t interfaces).facts? h = some facts' ∧
    facts'.kind = facts.kind ∧ facts'.parent? = facts.parent? := by
  rw [facts?_rewired, hfacts]
  by_cases heq : h = t
  · exact ⟨{ facts with interfaces := interfaces }, by rw [Option.map_some, if_pos heq], rfl, rfl⟩
  · exact ⟨facts, by rw [Option.map_some, if_neg heq], rfl, rfl⟩

/-- members and base types are those from before, so members stand in as before -/
theorem interfaceMap_rewired (h : TypeHandle) (i : TypeRef) :
    (s.rewired t interfaces).interfaceMap h i = s.interfaceMap h i := by
  have hslots : ∀ steps visited h arguments, (s.rewired t interfaces).slotsFrom i.canonicalName steps visited h arguments =
      s.slotsFrom i.canonicalName steps visited h arguments := by
    intro steps
    induction steps with
    | zero => exact fun _ _ _ => rfl
    | succ steps ih =>
      intro visited h arguments
      rw [slotsFrom, slotsFrom, entry?_rewired]
      cases s.entry? h with
      | none => rfl
      | some entry =>
        have hbase : (if h = t then { entry with facts := { entry.facts with interfaces := interfaces } } else
            entry).facts.baseType = entry.facts.baseType := by
          split <;> rfl
        have hown : ownSlots h (if h = t then { entry with facts := { entry.facts with interfaces := interfaces } } else
            entry) arguments i.canonicalName = ownSlots h entry arguments i.canonicalName := by
          unfold ownSlots
          split <;> rfl
        simp only [Option.map_some, hbase, hown, resolve_rewired, ih]
  have hlength : (s.rewired t interfaces).entries.length = s.entries.length := List.length_modify ..
  rw [interfaceMap, interfaceMap, hlength, hslots]

/-- what a type declares has no say in whether it is exported -/
theorem isVisible_rewired (f : VisibilityFilter) : (s.rewired t interfaces).isVisible f = s.isVisible f := by
  refine isVisible_congr f fun r => ?_
  rw [definition?, definition?, resolve_rewired]
  cases s.resolve r with
  | none => rfl
  | some h =>
    rw [Option.bind_some, Option.bind_some, facts?_rewired, Option.map_map]
    congr 1
    funext facts
    rw [Function.comp_apply]
    split <;> rfl

/-! ## The hierarchy stays orderly -/

section

variable (hfacts : s.facts? t = some facts) (hbrought : ∀ i ∈ interfaces, s.Brings t i)
include hfacts hbrought

/-- what brings in interfaces did so before, or was brought in -/
theorem of_mem_supers_rewired {facts' : TypeFacts} {r : TypeRef} (hfacts' : (s.rewired t interfaces).facts? h = some facts')
    (hr : r ∈ facts'.supers) : (∃ facts, s.facts? h = some facts ∧ r ∈ facts.supers) ∨ s.Brings h r := by
  by_cases heq : h = t
  · subst heq
    rw [facts?_rewired_self hfacts, Option.some.injEq] at hfacts'
    subst hfacts'
    rcases mem_supers.1 hr with hr | hr
    · exact Or.inr (hbrought r hr)
    · exact Or.inl ⟨facts, hfacts, mem_supers.2 (Or.inr hr)⟩
  · rw [facts?_rewired_of_ne heq] at hfacts'
    exact Or.inl ⟨facts', hfacts', hr⟩

variable (ho : s.Orderly)
include ho

theorem transGen_of_leads_rewired {k : TypeHandle} (hk : (s.rewired t interfaces).Leads h k) :
    Relation.TransGen s.Leads h k := by
  obtain ⟨facts', hfacts', r, hr, hresolve⟩ := leads_iff.1 hk
  rw [resolve_rewired] at hresolve
  rcases of_mem_supers_rewired hfacts hbrought hfacts' hr with ⟨facts, hfacts, hr⟩ | hr
  · exact .single (leads_of_resolve hfacts hr hresolve)
  · exact hr.transGen ho hresolve

theorem acyclic_rewired (hs : s.Acyclic) : (s.rewired t interfaces).Acyclic := fun h hh =>
  hs h (Relation.TransGen.closed (fun _ _ hk => transGen_of_leads_rewired hfacts hbrought ho hk) h h hh)

theorem brings_of_brings_rewired {i : TypeRef} (hi : (s.rewired t interfaces).Brings h i) : s.Brings h i := by
  induction hi with
  | @declared h facts' i hfacts' hi =>
    by_cases heq : h = t
    · subst heq
      rw [facts?_rewired_self hfacts, Option.some.injEq] at hfacts'
      subst hfacts'
      exact hbrought i hi
    · rw [facts?_rewired_of_ne heq] at hfacts'
      exact .declared hfacts' hi
  | extended hfacts' hr hk _ ih =>
    rw [resolve_rewired] at hk
    rcases of_mem_supers_rewired hfacts hbrought hfacts' hr with ⟨facts, hfacts, hr⟩ | hr
    · exact .extended hfacts hr hk ih
    · exact hr.trans ho hk ih

/-- a definition uses no position that it did not use before -/
theorem supplies_rewired {r : TypeRef} (hr : s.Supplies r) : (s.rewired t interfaces).Supplies r := by
  intro facts' hfacts' q hq p hp
  obtain ⟨k, hk, hk'⟩ := Option.bind_eq_some_iff.1 hfacts'
  rw [resolve_rewired] at hk
  rcases of_mem_supers_rewired hfacts hbrought hk' hq with ⟨facts, hfacts, hq⟩ | hq
  · exact hr facts ((definition?_of_resolve hk).trans hfacts) q hq p hp
  · exact hq.covered ho hk hr p hp

theorem orderly_rewired : (s.rewired t interfaces).Orderly where
  supplied h facts' hfacts' r hr := by
    apply supplies_rewired hfacts hbrought ho
    rcases of_mem_supers_rewired hfacts hbrought hfacts' hr with ⟨facts, hfacts, hr⟩ | hr
    · exact ho.supplied h facts hfacts r hr
    · exact hr.supplies ho
  concrete h facts' hfacts' i hi :=
    (brings_of_brings_rewired hfacts hbrought ho (.declared hfacts' hi)).isPlaceholder ho
  telling h i j hi hj hname :=
    ho.telling h i j (brings_of_brings_rewired hfacts hbrought ho hi) (brings_of_brings_rewired hfacts hbrought ho hj) hname

end

/-! ## The same is shown -/

/-- declared interfaces, each followed by what it extends -/
def followed (s : FactSet) (all : TypeHandle → List TypeRef) (interfaces : List TypeRef) : List TypeRef :=
  interfaces.flatMap fun i => i :: s.via all i

theorem gathered_eq (all : TypeHandle → List TypeRef) (hfacts : s.facts? h = some facts) :
    s.gathered all h = s.followed all facts.interfaces ++ facts.parent?.toList.flatMap (s.via all) := by
  rw [gathered, hfacts, followed]

variable {hs : s.Acyclic} {keep : TypeRef → Bool}

theorem filter_followed_congr {s' : FactSet} {all all' : TypeHandle → List TypeRef} {declared : List TypeRef}
    (hvia : ∀ i ∈ declared, (s'.via all' i).filter keep = (s.via all i).filter keep) :
    (s'.followed all' declared).filter keep = (s.followed all declared).filter keep := by
  rw [followed, followed, List.filter_flatMap, List.filter_flatMap]
  apply List.flatMap_congr
  intro i hi
  rw [List.filter_cons, List.filter_cons, hvia i hi]

section

variable (hs' : (s.rewired t interfaces).Acyclic) (hfacts : s.facts? t = some facts)
  (hbrought : ∀ i ∈ interfaces, s.Brings t i) (ho : s.Orderly) (hkeep : Stable keep)
include hfacts hbrought ho hkeep

/-- a reference shows the same when the definition behind it does -/
theorem filter_via_rewired {r : TypeRef} (hlists : ∀ k, s.resolve r = some k →
      ((s.rewired t interfaces).lineage hs' k).filter keep = (s.lineage hs k).filter keep) :
    ((s.rewired t interfaces).via ((s.rewired t interfaces).lineage hs') r).filter keep =
      (s.via (s.lineage hs) r).filter keep := by
  rw [filter_via hkeep (lineage_concrete ho),
    filter_via hkeep (lineage_concrete (orderly_rewired hfacts hbrought ho)), via, via, resolve_rewired]
  cases hk : s.resolve r with
  | none => rfl
  | some k => exact congrArg (List.map _) (hlists k hk)

/-- **What is shown of a definition.** If the type shows the same of what it declares now, first met in the same order,
every definition shows what it did. -/
theorem filter_lineage_rewired
    (hsame : SameFirsts ((s.followed (s.lineage hs) interfaces).filter keep)
      ((s.followed (s.lineage hs) facts.interfaces).filter keep)) (h : TypeHandle) :
    ((s.rewired t interfaces).lineage hs' h).filter keep = (s.lineage hs h).filter keep := by
  induction h using hs.induction with
  | step h ih =>
    have hvia : ∀ r, (∀ k, s.resolve r = some k → Relation.TransGen s.Leads h k) →
        ((s.rewired t interfaces).via ((s.rewired t interfaces).lineage hs') r).filter keep =
          (s.via (s.lineage hs) r).filter keep := fun r hr =>
      filter_via_rewired hs' hfacts hbrought ho hkeep fun k hk => ih k (hr k hk)
    have hsupers : ∀ facts', s.facts? h = some facts' → ∀ r ∈ facts'.supers,
        ((s.rewired t interfaces).via ((s.rewired t interfaces).lineage hs') r).filter keep =
          (s.via (s.lineage hs) r).filter keep := fun facts' hfacts' r hr =>
      hvia r fun k hk => .single (leads_of_resolve hfacts' hr hk)
    have hparent : ∀ facts', s.facts? h = some facts' →
        (facts'.parent?.toList.flatMap
            ((s.rewired t interfaces).via ((s.rewired t interfaces).lineage hs'))).filter keep =
          (facts'.parent?.toList.flatMap (s.via (s.lineage hs))).filter keep := by
      intro facts' hfacts'
      rw [List.filter_flatMap, List.filter_flatMap]
      exact List.flatMap_congr fun b hb =>
        hsupers facts' hfacts' b (mem_supers.2 (Or.inr (Option.mem_toList.1 hb)))
    rw [lineage_eq_eraseDups ho, lineage_eq_eraseDups (orderly_rewired hfacts hbrought ho), ← eraseDups_filter,
      ← eraseDups_filter]
    by_cases heq : h = t
    · subst heq
      rw [gathered_eq _ (facts?_rewired_self hfacts), gathered_eq _ hfacts, List.filter_append, List.filter_append]
      refine SameFirsts.append (SameFirsts.trans (SameFirsts.of_eq ?_) hsame) (SameFirsts.of_eq (hparent facts hfacts))
      exact filter_followed_congr fun i hi =>
        hvia i fun k hk => (hbrought i hi).transGen ho hk
    · cases hfacts' : s.facts? h with
      | none =>
        rw [gathered, gathered, facts?_rewired_of_ne heq, hfacts']
      | some facts' =>
        rw [gathered_eq _ ((facts?_rewired_of_ne heq).trans hfacts'), gathered_eq _ hfacts', List.filter_append,
          List.filter_append, hparent facts' hfacts']
        congr 2
        exact filter_followed_congr fun i hi =>
          hsupers facts' hfacts' i (mem_supers.2 (Or.inl hi))

end

/-! ## The same is listed -/

/-- a name is among those of interfaces that are brought in along with the reference when the reference is -/
theorem contains_name_iff (ho : s.Orderly) {rs : List TypeRef} {r : TypeRef} (hrs : ∀ x ∈ rs, s.Brings h x)
    (hr : s.Brings h r) : (rs.map canonicalName).contains r.canonicalName = true ↔ r ∈ rs := by
  rw [List.contains_iff_mem, List.mem_map]
  constructor
  · rintro ⟨x, hx, hname⟩
    exact ho.telling h x r (hrs x hx) hr hname ▸ hx
  · exact fun hr => ⟨r, hr, rfl⟩

/-- so lists that show the same have the same of the names that are shown -/
theorem contains_name_congr (ho : s.Orderly) {rs rs' : List TypeRef} {r : TypeRef} (hsame : rs.filter keep = rs'.filter keep)
    (hrs : ∀ x ∈ rs, s.Brings h x) (hrs' : ∀ x ∈ rs', s.Brings h x) (hr : s.Brings h r) (hshown : keep r = true) :
    (rs.map canonicalName).contains r.canonicalName = (rs'.map canonicalName).contains r.canonicalName := by
  have hmem : r ∈ rs ↔ r ∈ rs' := by
    have hfilter : r ∈ rs.filter keep ↔ r ∈ rs'.filter keep := by rw [hsame]
    simpa [List.mem_filter, hshown] using hfilter
  rw [Bool.eq_iff_iff, contains_name_iff ho hrs hr, contains_name_iff ho hrs' hr, hmem]

theorem withoutImplied_map (all : List TypeRef) (reach : TypeRef → List TypeRef) :
    withoutImplied all (all.map reach) = all.filter fun r => !(all.any fun other =>
      other.canonicalName != r.canonicalName && ((reach other).map canonicalName).contains r.canonicalName) := by
  unfold withoutImplied
  simp only [List.map_map, List.zip_map', List.any_map]
  rfl

/-- **What types list.** If a type declares other interfaces that it brought in before, and shows the same of them, first
met in the same order, every type lists what it did. -/
theorem directInterfaces_rewired (hs : s.Acyclic) (ho : s.Orderly) (hkeep : Stable keep) (hfacts : s.facts? t = some facts)
    (hbrought : ∀ i ∈ interfaces, s.Brings t i)
    (hsame : SameFirsts ((s.followed (s.lineage hs) interfaces).filter keep)
      ((s.followed (s.lineage hs) facts.interfaces).filter keep)) (h : TypeHandle) :
    alone ((s.rewired t interfaces).directInterfaces keep h) = alone (s.directInterfaces keep h) := by
  have hs' := acyclic_rewired hfacts hbrought ho hs
  have ho' := orderly_rewired hfacts hbrought ho
  have hall : ((s.rewired t interfaces).lineage hs' h).filter keep = (s.lineage hs h).filter keep :=
    filter_lineage_rewired hs' hfacts hbrought ho hkeep hsame h
  have hvia : ∀ r, ((s.rewired t interfaces).via ((s.rewired t interfaces).lineage hs') r).filter keep =
      (s.via (s.lineage hs) r).filter keep := fun r =>
    filter_via_rewired hs' hfacts hbrought ho hkeep fun k _ =>
      filter_lineage_rewired hs' hfacts hbrought ho hkeep hsame k
  cases hfacts₁ : s.facts? h with
  | none =>
    have hfacts₂ : (s.rewired t interfaces).facts? h = none := by
      rw [facts?_rewired, hfacts₁, Option.map_none]
    rw [directInterfaces, directInterfaces, hfacts₁, hfacts₂]
  | some facts₁ =>
    obtain ⟨facts₂, hfacts₂, hkind₂, hparent₂⟩ := exists_facts?_rewired t interfaces hfacts₁
    have hbrings : ∀ i ∈ (s.lineage hs h).filter keep, s.Brings h i ∧ keep i = true := fun i hi =>
      ⟨brings_of_mem_lineage (List.mem_filter.1 hi).1, (List.mem_filter.1 hi).2⟩
    have hbrings' : ∀ i ∈ (s.lineage hs h).filter keep, (s.rewired t interfaces).Brings h i := fun i hi =>
      brings_of_mem_lineage (List.mem_filter.1 (hall.symm ▸ hi)).1
    by_cases hkind : facts₁.kind = .interfaceType
    · have hlisted : Answers hs _ _ _ := answers_directInterfaces_interface keep hfacts₁ hkind
      have hlisted' : Answers hs' _ _ _ := answers_directInterfaces_interface keep hfacts₂ (hkind₂.trans hkind)
      rw [hlisted.alone_eq, hlisted'.alone_eq, hall, withoutImplied_map, withoutImplied_map]
      apply List.filter_congr
      intro i hi
      congr 1
      rw [Bool.eq_iff_iff, List.any_eq_true, List.any_eq_true]
      refine exists_congr fun other => and_congr_right fun hother => ?_
      rw [contains_name_congr ho (hvia other)
        (fun x hx => brings_of_brings_rewired hfacts hbrought ho ((hbrings' other hother).of_mem_via ho' hx))
        (fun x hx => (hbrings other hother).1.of_mem_via ho hx) (hbrings i hi).1 (hbrings i hi).2]
    · have hlisted : Answers hs _ _ _ := answers_directInterfaces_other keep hfacts₁ hkind
      have hlisted' : Answers hs' _ _ _ := answers_directInterfaces_other keep hfacts₂ (hkind₂ ▸ hkind)
      rw [hlisted.alone_eq, hlisted'.alone_eq, hall, hparent₂]
      apply List.filter_congr
      intro i hi
      rw [interfaceMap_rewired]
      congr 2
      refine contains_name_congr ho ?_ ?_ ?_ (hbrings i hi).1 (hbrings i hi).2
      · rw [List.filter_flatMap, List.filter_flatMap]
        exact List.flatMap_congr fun b _ => hvia b
      · intro x hx
        obtain ⟨b, hb, hx⟩ := List.mem_flatMap.1 hx
        rw [← hparent₂] at hb
        exact brings_of_brings_rewired hfacts hbrought ho
          (brings_of_mem_via hfacts₂ (mem_supers.2 (Or.inr (Option.mem_toList.1 hb))) hx)
      · intro x hx
        obtain ⟨b, hb, hx⟩ := List.mem_flatMap.1 hx
        exact brings_of_mem_via hfacts₁ (mem_supers.2 (Or.inr (Option.mem_toList.1 hb))) hx

/-! ## Rerouting -/

theorem followed_append (all : TypeHandle → List TypeRef) (front back : List TypeRef) :
    s.followed all (front ++ back) = s.followed all front ++ s.followed all back :=
  List.flatMap_append

theorem via_expanded (ho : s.Orderly) (hkeep : Stable keep) (r : TypeRef) :
    Expanded (s.shows hs keep) ((s.via (s.lineage hs) r).filter keep) :=
  expanded_via ho hkeep r fun k _ => expand_lineage ho hkeep k

/-- what an interface shows, declared in its place, shows the same as the hidden interface -/
theorem followed_hidden (ho : s.Orderly) (hkeep : Stable keep) {hidden : TypeRef} (hhidden : keep hidden = false) :
    SameFirsts ((s.followed (s.lineage hs) ((s.via (s.lineage hs) hidden).filter keep)).filter keep)
      ((s.followed (s.lineage hs) [hidden]).filter keep) := by
  have hshows : (s.followed (s.lineage hs) ((s.via (s.lineage hs) hidden).filter keep)).filter keep =
      ((s.via (s.lineage hs) hidden).filter keep).flatMap (s.shows hs keep) := by
    rw [followed, List.filter_flatMap]
    apply List.flatMap_congr
    intro i hi
    rw [List.filter_cons_of_pos (List.mem_filter.1 hi).2, shows]
  have hplace : (s.followed (s.lineage hs) [hidden]).filter keep = (s.via (s.lineage hs) hidden).filter keep := by
    rw [followed, List.flatMap_singleton, List.filter_cons_of_neg (by simp [hhidden])]
  rw [hshows, hplace]
  exact via_expanded ho hkeep hidden

/-- an interface that another one extends extends nothing that the other one does not -/
theorem via_subset (ho : s.Orderly) {i j : TypeRef} (hj : j ∈ s.via (s.lineage hs) i) :
    s.via (s.lineage hs) j ⊆ s.via (s.lineage hs) i := by
  intro x hx
  have hexpanded : Expanded (s.shows hs fun _ => true) ((s.via (s.lineage hs) i).filter fun _ => true) :=
    via_expanded ho (fun _ _ _ => rfl) i
  rw [List.filter_true] at hexpanded
  refine hexpanded.mem_iff.1 (List.mem_flatMap.2 ⟨j, hj, ?_⟩)
  rw [shows, List.filter_true]
  exact List.mem_cons_of_mem _ hx

/-- the verdict depends on nothing of a reference but the definition it names, or names by a managed reference -/
def Keyed (visible : TypeRef → Bool) : Prop :=
  ∀ r r', r.definitionKey? = r'.definitionKey? → r.withoutByRef.definitionKey? = r'.withoutByRef.definitionKey? →
    visible r = visible r'

/-- such is the verdict whether a reference is to something exported -/
theorem keyed_isVisible (f : VisibilityFilter) : Keyed (s.isVisible f) := by
  intro r r' _ hkey
  rw [isVisible, isVisible, definition?, definition?, resolve, resolve, hkey]

theorem Keyed.stable {visible : TypeRef → Bool} (hvisible : Keyed visible) : Stable visible := by
  intro r arguments hr
  apply hvisible
  · exact definitionKey?_substitute arguments hr
  · rw [withoutByRef_substitute arguments hr, definitionKey?_substitute arguments (isPlaceholder_withoutByRef hr)]

section

variable {front back : List TypeRef} {hidden : TypeRef} (hfacts : s.facts? t = some facts)
  (hinterfaces : facts.interfaces = front ++ hidden :: back) (ho : s.Orderly)
include hfacts hinterfaces ho

/-- what is declared in place of an interface that extends it was brought in before -/
theorem brought_replaced (hs : s.Acyclic) (keep : TypeRef → Bool) :
    ∀ i ∈ front ++ (s.via (s.lineage hs) hidden).filter keep ++ back, s.Brings t i := by
  have hdeclared : ∀ i ∈ front ++ hidden :: back, s.Brings t i := fun i hi => .declared hfacts (hinterfaces ▸ hi)
  intro i hi
  rw [List.append_assoc] at hi
  rcases List.mem_append.1 hi with hi | hi
  · exact hdeclared i (List.mem_append_left _ hi)
  · rcases List.mem_append.1 hi with hi | hi
    · exact (hdeclared hidden (by simp)).of_mem_via ho (List.mem_filter.1 hi).1
    · exact hdeclared i (by simp [hi])

omit hfacts in
/-- and shows the same, first met in the same order -/
theorem followed_replaced (hs : s.Acyclic) {keep : TypeRef → Bool} (hkeep : Stable keep) (hhidden : keep hidden = false) :
    SameFirsts
      ((s.followed (s.lineage hs) (front ++ (s.via (s.lineage hs) hidden).filter keep ++ back)).filter keep)
      ((s.followed (s.lineage hs) facts.interfaces).filter keep) := by
  have hsplit : front ++ hidden :: back = front ++ [hidden] ++ back := by simp
  rw [hinterfaces, hsplit]
  simp only [followed_append, List.filter_append]
  exact ((SameFirsts.refl _).append (followed_hidden ho hkeep hhidden)).append (.refl _)

end

/-- **Rerouting.** In an orderly hierarchy, a hidden interface that a type declares may be replaced by the visible ones it
extends, and an interface may be declared after one that extends it: no type lists anything else. -/
theorem directInterfaces_rerouted {visible : TypeRef → Bool} (hs : s.Acyclic) (ho : s.Orderly) (hvisible : Keyed visible)
    (hfacts : s.facts? t = some facts) :
    (∀ front hidden back, facts.interfaces = front ++ hidden :: back → visible hidden = false → ∀ h,
      alone ((s.rewired t (front ++ (alone (s.allInterfaces hidden)).filter visible ++ back)).directInterfaces visible h) =
        alone (s.directInterfaces visible h)) ∧
    ∀ i ∈ facts.interfaces, ∀ extended ∈ alone (s.allInterfaces i), ∀ h,
      alone ((s.rewired t (facts.interfaces ++ [extended])).directInterfaces visible h) =
        alone (s.directInterfaces visible h) := by
  have hvia : ∀ r, alone (s.allInterfaces r) = s.via (s.lineage hs) r := fun r => (answers_allInterfaces r).alone_eq
  have hdeclared : ∀ i ∈ facts.interfaces, s.Brings t i := fun i hi => .declared hfacts hi
  constructor
  · intro front hidden back hinterfaces hhidden h
    rw [hvia]
    exact directInterfaces_rewired hs ho hvisible.stable hfacts (brought_replaced hfacts hinterfaces ho hs visible)
      (followed_replaced hinterfaces ho hs hvisible.stable hhidden) h
  · intro i hi extended hextended h
    rw [hvia] at hextended
    refine directInterfaces_rewired hs ho hvisible.stable hfacts ?_ ?_ h
    · intro r hr
      rcases List.mem_append.1 hr with hr | hr
      · exact hdeclared r hr
      · rw [List.mem_singleton.1 hr]
        exact (hdeclared i hi).of_mem_via ho hextended
    · rw [followed_append]
      refine (sameFirsts_append_of_subset ?_).filter visible
      intro x hx
      refine List.mem_flatMap.2 ⟨i, hi, List.mem_cons_of_mem _ ?_⟩
      rw [followed, List.flatMap_singleton] at hx
      rcases List.mem_cons.1 hx with rfl | hx
      · exact hextended
      · exact via_subset ho hextended hx

theorem keyed_unhidden : Keyed unhidden := by
  intro r r' hkey _
  rw [unhidden, unhidden, hkey]

/-- the drawing may declare the list itself, and shapes again -/
theorem directInterfaces_rerouted_shapes :
    shapes.Orderly ∧
      alone (shapes.directInterfaces unhidden ⟨3⟩) = [interfaceOf "IList" (.topLevel "" "Circle"), .topLevel "" "IShape"] ∧
      alone ((shapes.rewired ⟨3⟩ [interfaceOf "IList" (.topLevel "" "Circle"), .topLevel "" "IShape"]).directInterfaces
        unhidden ⟨3⟩) = alone (shapes.directInterfaces unhidden ⟨3⟩) ∧
      alone ((shapes.rewired ⟨3⟩ [interfaceOf "IHidden" (.topLevel "" "Circle"), .topLevel "" "IShape"]).directInterfaces
        unhidden ⟨3⟩) = alone (shapes.directInterfaces unhidden ⟨3⟩) := by
  have horderly : shapes.Orderly := by
    have htelling := telling_of_lists (s := shapes)
      [[], [.topLevel "" "IShape"], [interfaceOf "IList" typeT, .topLevel "" "IShape"],
        [interfaceOf "IHidden" (.topLevel "" "Circle"), interfaceOf "IList" (.topLevel "" "Circle"), .topLevel "" "IShape"]]
      (by decide) (by decide)
    exact ⟨of_facts? (by decide), of_facts? (by decide), htelling⟩
  obtain ⟨hreplaced, happended⟩ := directInterfaces_rerouted (t := ⟨3⟩) acyclic_shapes horderly keyed_unhidden rfl
  refine ⟨horderly, by decide, ?_, ?_⟩
  · exact hreplaced [] (interfaceOf "IHidden" (.topLevel "" "Circle")) [] rfl (by decide) ⟨3⟩
  · exact happended (interfaceOf "IHidden" (.topLevel "" "Circle")) (by decide) (.topLevel "" "IShape") (by decide) ⟨3⟩

/-- a hidden interface that declares its type parameter -/
def relay : FactSet where
  identity := "Shapes"
  entries := [
    bareType .interfaceType .pub (.topLevel "" "IShape") [],
    bareType .interfaceType .pub (.topLevel "" "ICircle") [.topLevel "" "IShape"],
    bareType .interfaceType .internal (interfaceOf "IHidden" typeT) [typeT],
    bareType .classType .pub (.topLevel "" "Drawing") [interfaceOf "IHidden" (.topLevel "" "ICircle")]]

/-- **A type parameter cannot be rerouted.** What is put in its place is shown, but not what that extends, unless it is
declared in place of the hidden interface. -/
theorem placeholder_not_rerouted :
    relay.Acyclic ∧ (∀ h facts, relay.facts? h = some facts → ∀ r ∈ facts.supers, relay.Supplies r) ∧
      (∀ h i j, relay.Brings h i → relay.Brings h j → i.canonicalName = j.canonicalName → i = j) ∧ Keyed unhidden ∧
      unhidden (interfaceOf "IHidden" (.topLevel "" "ICircle")) = false ∧
      (alone (relay.allInterfaces (interfaceOf "IHidden" (.topLevel "" "ICircle")))).filter unhidden =
        [.topLevel "" "ICircle"] ∧
      alone (relay.directInterfaces unhidden ⟨3⟩) = [.topLevel "" "ICircle"] ∧
      alone ((relay.rewired ⟨3⟩ [.topLevel "" "ICircle"]).directInterfaces unhidden ⟨3⟩) =
        [.topLevel "" "ICircle", .topLevel "" "IShape"] := by
  have htelling := telling_of_lists (s := relay)
    [[], [.topLevel "" "IShape"], [typeT], [interfaceOf "IHidden" (.topLevel "" "ICircle"), .topLevel "" "ICircle"]]
    (by decide) (by decide)
  exact ⟨acyclic_of_earlier (by decide), of_facts? (by decide), htelling, keyed_unhidden, by decide, by decide,
    by decide, by decide⟩

end ApiSurface.FactSet
