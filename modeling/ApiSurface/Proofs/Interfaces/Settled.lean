/-
Definitions that lead to no cycle, in a hierarchy that may have some elsewhere.

The interfaces of such a definition do not depend on what was asked before. The interfaces of others do, so two caches answer
alike as long as they agree on these others, whatever they hold of the settled ones.

`answers_settled`: a settled definition has one list.
`preserves_lookup`: what is kept stays, and what is not led to is not touched.
`together_closure`: caches that agree on definitions that are not settled give the same lists, and go on to agree.
-/
import ApiSurface.Proofs.Interfaces.Depth

namespace ApiSurface.FactSet

open Resolving

variable {s : FactSet} {h k : TypeHandle}

/-- a definition that the set knows -/
def Has (s : FactSet) (h : TypeHandle) : Prop := h.index < s.entries.length

/-- the definition leads to none that leads back to itself -/
def Settled (s : FactSet) (h : TypeHandle) : Prop :=
  ∀ k, Relation.ReflTransGen s.Leads h k → ¬Relation.TransGen s.Leads k k

theorem Settled.of_leads (hh : s.Settled h) (hk : s.Leads h k) : s.Settled k := fun l hl => hh l (.head hk hl)

theorem has_of_leads (hk : s.Leads h k) : s.Has k := by
  obtain ⟨_, -, r, -, hr⟩ := leads_iff.1 hk
  exact index_lt_of_resolve hr

theorem has_of_reflTransGen (hh : s.Has h) (hk : Relation.ReflTransGen s.Leads h k) : s.Has k := by
  induction hk with
  | refl => exact hh
  | tail _ hlast _ => exact has_of_leads hlast

/-! ## The settled part -/

open Classical in
/-- the set in which definitions that are not settled lead nowhere -/
noncomputable def settledPart (s : FactSet) : FactSet :=
  { s with entries := s.entries.mapIdx fun index entry =>
      if s.Settled ⟨index⟩ then entry
      else { entry with facts := { entry.facts with baseType := none, interfaces := [] } } }

theorem length_settledPart : s.settledPart.entries.length = s.entries.length := List.length_mapIdx

open Classical in
theorem facts?_settledPart (h : TypeHandle) : s.settledPart.facts? h = (s.facts? h).map fun facts =>
    if s.Settled h then facts else { facts with baseType := none, interfaces := [] } := by
  unfold facts? entry? settledPart
  rw [List.getElem?_mapIdx, Option.map_map, Option.map_map]
  congr 1
  funext entry
  rw [Function.comp_apply, Function.comp_apply]
  split <;> rfl

theorem resolve_settledPart (r : TypeRef) : s.settledPart.resolve r = s.resolve r := by
  refine resolve_congr (List.ext_getElem? fun index => ?_) r
  unfold settledPart
  rw [List.getElem?_map, List.getElem?_map, List.getElem?_mapIdx, Option.map_map]
  congr 1
  funext entry
  rw [Function.comp_apply]
  split <;> rfl

theorem leads_settledPart : s.settledPart.Leads h k ↔ s.Settled h ∧ s.Leads h k := by
  rw [leads_iff, leads_iff, facts?_settledPart]
  simp only [resolve_settledPart]
  by_cases hh : s.Settled h
  · simp only [hh, if_true, Option.map_id', true_and]
  · simp only [hh, if_false, false_and, iff_false]
    rintro ⟨facts, hfacts, r, hr, -⟩
    obtain ⟨facts', -, rfl⟩ := Option.map_eq_some_iff.1 hfacts
    rcases TypeFacts.mem_supers.1 hr with hr | hr
    · cases hr
    · cases TypeFacts.baseType_of_mem_parent? hr

theorem transGen_settledPart (hk : Relation.TransGen s.settledPart.Leads h k) :
    s.Settled h ∧ Relation.TransGen s.Leads h k := by
  induction hk with
  | single hk => exact (leads_settledPart.1 hk).imp_right .single
  | tail _ hk ih => exact ⟨ih.1, ih.2.tail (leads_settledPart.1 hk).2⟩

theorem acyclic_settledPart (s : FactSet) : s.settledPart.Acyclic := fun h hh =>
  (transGen_settledPart hh).1 h .refl (transGen_settledPart hh).2

theorem shares_settledPart : Shares s s.settledPart s.Settled where
  facts h hh := by
    rw [facts?_settledPart]
    simp only [hh, if_true, Option.map_id']
  resolve _ _ _ _ r _ := resolve_settledPart r
  closed _ _ hh hk := hh.of_leads hk

/-- the list of a settled definition -/
noncomputable def settledList (s : FactSet) (h : TypeHandle) : List TypeRef := s.settledPart.lineage s.acyclic_settledPart h

/-- **Settled definitions.** Where what is kept of those that a settled definition leads to is right, it has one list. -/
theorem answers_settled (hh : s.Settled h) :
    Answers s.acyclic_settledPart (Relation.ReflTransGen s.Leads h) (s.closure h) (s.settledList h) := by
  have hsame : s.settledPart.closure h = s.closure h := closure_shared shares_settledPart length_settledPart.ge hh
  rw [← hsame]
  refine (answers_closure h).mono fun k hk => ?_
  exact Relation.ReflTransGen.mono (fun _ _ hl => (leads_settledPart.1 hl).2) _ _ hk

/-! ## What stays as it is -/

/-- what is kept of a definition stays, and so does what is not if nothing leads to it -/
theorem preserves_lookup {list? : Option (List TypeRef)} (depth : Nat)
    (hstays : list?.isSome ∨ ¬Relation.ReflTransGen s.Leads h k) :
    Preserves (fun known => known.lookup k = list?) (s.closureWithin depth h) := by
  induction depth generalizing h with
  | zero => exact fun known hknown => hknown
  | succ depth ih =>
    rw [closureWithin_succ]
    by_cases heq : k = h
    · subst heq
      obtain ⟨list, rfl⟩ : ∃ list, list? = some list :=
        Option.isSome_iff_exists.1 (hstays.resolve_right fun hnot => hnot .refl)
      intro known hknown
      simp only [listOf, StateT.run, hknown]
      exact hknown
    · have hcons : ∀ known : Closures, ∀ list, known.lookup k = list? → List.lookup k ((h, list) :: known) = list? :=
        fun known list hknown => (Closures.lookup_cons_of_ne list heq).trans hknown
      refine preserves_listOf (I := fun known => known.lookup k = list?) (fun known hknown => hcons known [] hknown)
        (fun facts known hknown _ _ => hcons known [] hknown) (fun l hl => ?_) fun known list hknown => hcons known list hknown
      exact ih (hstays.imp_right fun hnot hk => hnot (.head hl hk))

/-- so room is not given back -/
theorem preserves_room (n : Nat) (h : TypeHandle) : Preserves (fun known => s.room known < n) (s.closure h) := by
  intro known hroom
  refine (room_anti fun k hk => ?_).trans_lt hroom
  cases hlist : known.lookup k with
  | none => rfl
  | some list =>
    have hstays : Preserves (fun known => known.lookup k = some list) (s.closure h) := preserves_lookup _ (Or.inl rfl)
    rw [hstays known hlist] at hk
    cases hk

/-! ## What is kept has a property -/

variable {P : TypeRef → Prop}

/-- all that is kept of definitions that the set knows has the property -/
def Holds (s : FactSet) (P : TypeRef → Prop) (known : Closures) : Prop :=
  ∀ h list, s.Has h → known.lookup h = some list → ∀ i ∈ list, P i

theorem Holds.cons {known : Closures} {list : List TypeRef} (hknown : s.Holds P known) (hlist : ∀ i ∈ list, P i) :
    s.Holds P ((h, list) :: known) := by
  intro k list' hk hlookup
  by_cases heq : k = h
  · rw [heq, Closures.lookup_cons_self, Option.some.injEq] at hlookup
    exact hlookup ▸ hlist
  · rw [Closures.lookup_cons_of_ne list heq] at hlookup
    exact hknown k list' hk hlookup

/-- if it is a property that references have and substitution keeps, it stays so -/
theorem together_holds (hP : s.Encloses P) (depth : Nat) (hh : s.Has h) :
    Together (Alongside (s.Holds P)) (Same P) (s.closureWithin depth h) (s.closureWithin depth h) := by
  induction depth generalizing h with
  | zero => exact together_pure ⟨rfl, List.forall_mem_nil _⟩
  | succ depth ih =>
    rw [closureWithin_succ]
    refine together_listOf (S := Alongside (s.Holds P)) ?_ ?_ ?_ ?_ ?_
    · rintro known _ ⟨rfl, hknown⟩
      exact ⟨rfl, fun list hlist => hknown h list hh hlist⟩
    · rintro known _ ⟨rfl, hknown⟩ - -
      exact ⟨rfl, hknown.cons (List.forall_mem_nil _)⟩
    · rintro facts known _ ⟨rfl, hknown⟩ - -
      exact ⟨rfl, hknown.cons (List.forall_mem_nil _)⟩
    · exact fun facts hfacts => together_gatherWith hP hfacts fun k hk => ih (has_of_leads hk)
    · rintro known _ list hlist ⟨rfl, hknown⟩
      exact ⟨rfl, hknown.cons hlist⟩

/-! ## Caches that agree -/

/-- the caches agree on definitions that are not settled; of settled ones they keep their one list, if any -/
structure CachesAgree (s : FactSet) (P : TypeRef → Prop) (known known' : Closures) : Prop where
  unsettled : ∀ h, s.Has h → ¬s.Settled h → known'.lookup h = known.lookup h
  left : ∀ h, s.Has h → s.Settled h → known.Right s.acyclic_settledPart h
  right : ∀ h, s.Has h → s.Settled h → known'.Right s.acyclic_settledPart h
  holdsLeft : s.Holds P known
  holdsRight : s.Holds P known'

theorem CachesAgree.empty (s : FactSet) (P : TypeRef → Prop) : s.CachesAgree P [] [] where
  unsettled _ _ _ := rfl
  left _ _ _ _ hlist := by cases hlist
  right _ _ _ _ hlist := by cases hlist
  holdsLeft _ _ _ hlist := by cases hlist
  holdsRight _ _ _ hlist := by cases hlist

/-- a list of a definition that is not settled is kept on both sides -/
theorem CachesAgree.cons {known known' : Closures} {list : List TypeRef} (hagree : s.CachesAgree P known known')
    (hh : ¬s.Settled h) (hlist : ∀ i ∈ list, P i) : s.CachesAgree P ((h, list) :: known) ((h, list) :: known') where
  unsettled k hk hk' := by
    by_cases heq : k = h
    · rw [heq, Closures.lookup_cons_self, Closures.lookup_cons_self]
    · rw [Closures.lookup_cons_of_ne list heq, Closures.lookup_cons_of_ne list heq, hagree.unsettled k hk hk']
  left k hk hk' := Closures.right_cons (fun heq => absurd (heq ▸ hk') hh) fun _ => hagree.left k hk hk'
  right k hk hk' := Closures.right_cons (fun heq => absurd (heq ▸ hk') hh) fun _ => hagree.right k hk hk'
  holdsLeft := hagree.holdsLeft.cons hlist
  holdsRight := hagree.holdsRight.cons hlist

/-- a list of a definition that the set does not know makes no difference -/
theorem CachesAgree.cons_right {known known' : Closures} (hagree : s.CachesAgree P known known') (hh : ¬s.Has h)
    (list : List TypeRef) : s.CachesAgree P known ((h, list) :: known') where
  unsettled k hk hk' := by
    have hne : k ≠ h := fun heq => hh (heq ▸ hk)
    rw [Closures.lookup_cons_of_ne list hne, hagree.unsettled k hk hk']
  left := hagree.left
  right k hk hk' := Closures.right_cons (fun heq => absurd (heq ▸ hk) hh) fun _ => hagree.right k hk hk'
  holdsLeft := hagree.holdsLeft
  holdsRight k list' hk hlookup := by
    have hne : k ≠ h := fun heq => hh (heq ▸ hk)
    rw [Closures.lookup_cons_of_ne list hne] at hlookup
    exact hagree.holdsRight k list' hk hlookup

theorem Settled.of_reflTransGen (hh : s.Settled h) (hk : Relation.ReflTransGen s.Leads h k) : s.Settled k :=
  fun l hl => hh l (hk.trans hl)

/-- a settled definition gives its list, and what was right stays right -/
theorem run_settled {known : Closures} (hh : s.Has h) (hsettled : s.Settled h)
    (hright : ∀ k, s.Has k → s.Settled k → known.Right s.acyclic_settledPart k) :
    ((s.closure h).run known).run.1 = s.settledList h ∧ ∀ k, known.Right s.acyclic_settledPart k →
      Closures.Right s.acyclic_settledPart ((s.closure h).run known).run.2 k := by
  obtain ⟨next, hrun, hkeep⟩ := answers_settled hsettled known fun k hk =>
    hright k (has_of_reflTransGen hh hk) (hsettled.of_reflTransGen hk)
  rw [hrun]
  exact ⟨rfl, hkeep⟩

/-- asking for a settled definition touches no other -/
theorem preserves_unsettled (hsettled : s.Settled h) (hk : ¬s.Settled k) (list? : Option (List TypeRef)) :
    Preserves (fun known => known.lookup k = list?) (s.closure h) :=
  preserves_lookup _ (Or.inr fun hpath => hk (hsettled.of_reflTransGen hpath))

section

variable (hP : s.Encloses P)
include hP

theorem together_settled (hh : s.Has h) (hsettled : s.Settled h) :
    Together (s.CachesAgree P) (Same P) (s.closure h) (s.closure h) := by
  intro known known' hagree
  obtain ⟨hlist, hkeep⟩ := run_settled hh hsettled hagree.left
  obtain ⟨hlist', hkeep'⟩ := run_settled hh hsettled hagree.right
  obtain ⟨⟨-, hall⟩, -, hholds⟩ := together_holds hP _ hh known known ⟨rfl, hagree.holdsLeft⟩
  obtain ⟨-, -, hholds'⟩ := together_holds hP _ hh known' known' ⟨rfl, hagree.holdsRight⟩
  refine ⟨⟨hlist.trans hlist'.symm, hall⟩, ?_, ?_, ?_, hholds, hholds'⟩
  · intro k hk hk'
    rw [preserves_unsettled hsettled hk' _ known rfl, preserves_unsettled hsettled hk' _ known' rfl, hagree.unsettled k hk hk']
  · exact fun k hk hk' => hkeep k (hagree.left k hk hk')
  · exact fun k hk hk' => hkeep' k (hagree.right k hk hk')

/-- asked on one side only, it leaves the caches in agreement -/
theorem preserves_agreement_settled (hh : s.Has h) (hsettled : s.Settled h) (known : Closures) :
    Preserves (s.CachesAgree P known) (s.closure h) := by
  intro known' hagree
  obtain ⟨-, hkeep⟩ := run_settled hh hsettled hagree.right
  obtain ⟨-, -, hholds⟩ := together_holds hP _ hh known' known' ⟨rfl, hagree.holdsRight⟩
  refine ⟨fun k hk hk' => ?_, hagree.left, fun k hk hk' => hkeep k (hagree.right k hk hk'), hagree.holdsLeft, hholds⟩
  rw [preserves_unsettled hsettled hk' _ known' rfl, hagree.unsettled k hk hk']

/-- caches that agree, with little room in the first -/
def CachesAgreeWithin (s : FactSet) (P : TypeRef → Prop) (n : Nat) (known known' : Closures) : Prop :=
  s.CachesAgree P known known' ∧ s.room known < n

/-- **Caches that agree** give the same lists. -/
theorem together_closure_within (n : Nat) (hh : s.Has h) :
    Together (s.CachesAgreeWithin P n) (Same P) (s.closure h) (s.closure h) := by
  induction n generalizing h with
  | zero => exact fun _ _ hknown => absurd hknown.2 (Nat.not_lt_zero _)
  | succ n ih =>
    by_cases hsettled : s.Settled h
    · rintro known known' ⟨hagree, hroom⟩
      obtain ⟨hsame, hnext⟩ := together_settled hP hh hsettled known known' hagree
      exact ⟨hsame, hnext, preserves_room _ h known hroom⟩
    · rw [closure_eq]
      refine together_listOf (S := s.CachesAgreeWithin P n) ?_ ?_ ?_ ?_ ?_
      · exact fun known known' hknown =>
          ⟨hknown.1.unsettled h hh hsettled, fun list hlist => hknown.1.holdsLeft h list hh hlist⟩
      · rintro known known' ⟨hagree, hroom⟩ - -
        exact ⟨hagree.cons hsettled (List.forall_mem_nil _), (room_cons_le _ _ _).trans_lt hroom⟩
      · rintro facts known known' ⟨hagree, hroom⟩ hnew hfacts
        exact ⟨hagree.cons hsettled (List.forall_mem_nil _),
          (room_cons_lt hfacts hnew []).trans_le (Nat.le_of_lt_succ hroom)⟩
      · exact fun facts hfacts => together_gatherWith hP hfacts fun k hk => ih (has_of_leads hk)
      · rintro known known' list hlist ⟨hagree, hroom⟩
        exact ⟨hagree.cons hsettled hlist, (room_cons_le _ _ _).trans_lt (Nat.lt_succ_of_lt hroom)⟩

theorem together_closure (hh : s.Has h) : Together (s.CachesAgree P) (Same P) (s.closure h) (s.closure h) := by
  intro known known' hagree
  obtain ⟨hsame, hnext, -⟩ := together_closure_within hP _ hh known known' ⟨hagree, Nat.lt_succ_self _⟩
  exact ⟨hsame, hnext⟩

theorem together_allInterfaces {r : TypeRef} (hr : P r) :
    Together (s.CachesAgree P) (Same P) (s.allInterfaces r) (s.allInterfaces r) :=
  together_interfacesVia hP hr fun _ hk => together_closure hP (index_lt_of_resolve hk)

end

end ApiSurface.FactSet
