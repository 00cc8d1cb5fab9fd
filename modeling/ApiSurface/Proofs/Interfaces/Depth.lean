/-
Depth makes no difference where it is enough.

A definition is kept, with an empty list, from the moment its interfaces are being computed, so no definition comes twice on the
way. Whatever depth is left is enough as long as it exceeds the number of definitions that are not kept yet.

`Together.bind`, `Together.mapM`: two computations step by step, over caches that are related.
`closureWithin_eq_closure`: beyond the number of definitions all depths are one.
`closure_eq`: the computation without depths.
`closure_shared`: two sets compute the interfaces of definitions that they share in the same way.
-/
import ApiSurface.Proofs.Interfaces.Brought
import ApiSurface.Proofs.Interfaces.Shared

namespace ApiSurface

variable {α β γ δ : Type}

/-! ## Two computations -/

namespace Resolving

/-- from caches that are related the computations come to results that are related, and leave caches that are -/
def Together (R : Closures → Closures → Prop) (Q : α → β → Prop) (m : Resolving α) (m' : Resolving β) : Prop :=
  ∀ known known', R known known' →
    Q (m.run known).run.1 (m'.run known').run.1 ∧ R (m.run known).run.2 (m'.run known').run.2

variable {R : Closures → Closures → Prop} {Q : α → β → Prop} {P : γ → δ → Prop} {m : Resolving α} {m' : Resolving β}

theorem together_pure {a : α} {b : β} (h : Q a b) : Together R Q (pure a) (pure b) := fun _ _ hR => ⟨h, hR⟩

theorem Together.imp {Q' : α → β → Prop} (hQ : ∀ a b, Q a b → Q' a b) (hm : Together R Q m m') : Together R Q' m m' :=
  fun known known' hR => (hm known known' hR).imp_left (hQ _ _)

/-- **One step after another.** -/
theorem Together.bind {f : α → Resolving γ} {f' : β → Resolving δ} (hm : Together R Q m m')
    (hf : ∀ a b, Q a b → Together R P (f a) (f' b)) : Together R P (m >>= f) (m' >>= f') := by
  intro known known' hR
  obtain ⟨hQ, hbetween⟩ := hm known known' hR
  exact hf _ _ hQ _ _ hbetween

/-- **A step for each entry.** -/
theorem Together.mapM {f : α → Resolving γ} {f' : α → Resolving δ} {xs : List α}
    (h : ∀ x ∈ xs, Together R P (f x) (f' x)) : Together R (List.Forall₂ P) (xs.mapM f) (xs.mapM f') := by
  induction xs with
  | nil => exact together_pure .nil
  | cons x rest ih =>
    rw [List.mapM_cons, List.mapM_cons]
    refine (h x List.mem_cons_self).bind fun c d hcd => ?_
    refine (ih fun y hy => h y (List.mem_cons_of_mem _ hy)).bind fun cs ds hcds => ?_
    exact together_pure (.cons hcd hcds)

/-- one computation preserves a property of caches -/
def Preserves (J : Closures → Prop) (m : Resolving α) : Prop := ∀ known, J known → J (m.run known).run.2

/-- a cache beside itself, with a property -/
def Alongside (J : Closures → Prop) (known known' : Closures) : Prop := known = known' ∧ J known

theorem Together.preserves {J : Closures → Prop} {Q : α → α → Prop} (hm : Together (Alongside J) Q m m) : Preserves J m :=
  fun known hJ => (hm known known ⟨rfl, hJ⟩).2.2

/-- the same list of references that have a property -/
def Same (P : TypeRef → Prop) (is is' : List TypeRef) : Prop := is = is' ∧ ∀ i ∈ is, P i

theorem Preserves.together_same {J : Closures → Prop} {m : Resolving (List TypeRef)} (hm : Preserves J m) :
    Together (Alongside J) (Same fun _ => True) m m := by
  rintro known _ ⟨rfl, hJ⟩
  exact ⟨⟨rfl, fun _ _ => trivial⟩, rfl, hm _ hJ⟩

end Resolving

/-- keeping a list concerns the one definition -/
theorem Closures.lookup_cons_of_ne {known : Closures} {h k : TypeHandle} (list : List TypeRef) (hne : k ≠ h) :
    List.lookup k ((h, list) :: known) = known.lookup k := by
  rw [List.lookup_cons, beq_false_of_ne hne]

theorem Closures.lookup_cons_self (known : Closures) (h : TypeHandle) (list : List TypeRef) :
    List.lookup h ((h, list) :: known) = some list := by
  rw [List.lookup_cons, beq_self_eq_true]

open Resolving

namespace FactSet

variable {s : FactSet} {R : Closures → Closures → Prop}

/-! ## Interfaces -/

/-- the references that bring in interfaces have a property, and putting arguments in keeps it -/
structure Encloses (s : FactSet) (P : TypeRef → Prop) : Prop where
  supers : ∀ h facts, s.facts? h = some facts → ∀ r ∈ facts.supers, P r
  substitute : ∀ i r, P i → P r → P (i.substitute r.withoutByRef.arguments)

theorem encloses_true (s : FactSet) : s.Encloses fun _ => True := ⟨fun _ _ _ _ _ => trivial, fun _ _ _ _ => trivial⟩

section

variable {P : TypeRef → Prop} (hP : s.Encloses P) {closure closure' : TypeHandle → Resolving (List TypeRef)}
include hP

theorem together_interfacesVia {r : TypeRef} (hr : P r)
    (hclosure : ∀ k, s.resolve r = some k → Together R (Same P) (closure k) (closure' k)) :
    Together R (Same P) (s.interfacesVia closure r) (s.interfacesVia closure' r) := by
  unfold interfacesVia
  cases hk : s.resolve r with
  | none => exact together_pure ⟨rfl, List.forall_mem_nil _⟩
  | some k =>
    refine (hclosure k hk).bind ?_
    rintro is _ ⟨rfl, his⟩
    refine together_pure ⟨rfl, fun i hi => ?_⟩
    obtain ⟨j, hj, rfl⟩ := List.mem_map.1 hi
    exact hP.substitute j r (his j hj) hr

/-- what a definition gathers is the same where the lists of others are -/
theorem together_gatherWith {h : TypeHandle} {facts : TypeFacts} (hfacts : s.facts? h = some facts)
    (hclosure : ∀ k, s.Leads h k → Together R (Same P) (closure k) (closure' k)) :
    Together R (Same P) (s.gatherWith closure facts) (s.gatherWith closure' facts) := by
  have hvia : ∀ r ∈ facts.supers, Together R (Same P) (s.interfacesVia closure r) (s.interfacesVia closure' r) :=
    fun r hr => together_interfacesVia hP (hP.supers h facts hfacts r hr) fun k hk =>
      hclosure k (leads_of_resolve hfacts hr hk)
  have hdeclared : ∀ i ∈ facts.interfaces, Together R (Same P)
      (do let extended ← s.interfacesVia closure i; return i :: extended)
      (do let extended ← s.interfacesVia closure' i; return i :: extended) := by
    intro i hi
    have hsuper : i ∈ facts.supers := TypeFacts.mem_supers.2 (Or.inl hi)
    refine (hvia i hsuper).bind ?_
    rintro extended _ ⟨rfl, hextended⟩
    exact together_pure ⟨rfl, List.forall_mem_cons.2 ⟨hP.supers h facts hfacts i hsuper, hextended⟩⟩
  have hinherited : Together R (Same P) (facts.parent?.elim (pure []) (s.interfacesVia closure))
      (facts.parent?.elim (pure []) (s.interfacesVia closure')) := by
    cases hparent : facts.parent? with
    | none => exact together_pure ⟨rfl, List.forall_mem_nil _⟩
    | some base => exact hvia base (TypeFacts.mem_supers.2 (Or.inr hparent))
  unfold gatherWith
  refine (Together.mapM hdeclared).bind fun declared declared' hlists => ?_
  refine hinherited.bind ?_
  rintro inherited _ ⟨rfl, hinherited⟩
  obtain ⟨rfl, hall⟩ : declared = declared' ∧ ∀ is ∈ declared, ∀ i ∈ is, P i := by
    induction hlists with
    | nil => exact ⟨rfl, List.forall_mem_nil _⟩
    | cons hsame _ ih =>
      obtain ⟨rfl, his⟩ := hsame
      obtain ⟨rfl, hrest⟩ := ih
      exact ⟨rfl, List.forall_mem_cons.2 ⟨his, hrest⟩⟩
  refine together_pure ⟨rfl, fun i hi => ?_⟩
  rcases List.mem_append.1 (mem_of_mem_distinctAfter hi) with hi | hi
  · obtain ⟨is, his, hi⟩ := List.mem_flatten.1 hi
    exact hall is his i hi
  · exact hinherited i hi

end

/-! ## One definition -/

/-- the list of a definition: the one that is kept, or what is gathered while an empty one stands for it -/
def listOf (h : TypeHandle) (gather : Option (Resolving (List TypeRef))) : Resolving (List TypeRef) := fun known =>
  match known.lookup h with
  | some list => pure (list, known)
  | none =>
    match gather with
    | none => pure ([], (h, []) :: known)
    | some m => m.run ((h, []) :: known) >>= fun p => pure (p.1, (h, p.1) :: p.2)

theorem closureWithin_succ (depth : Nat) (h : TypeHandle) :
    s.closureWithin (depth + 1) h = listOf h ((s.facts? h).map (s.gatherWith (s.closureWithin depth))) := by
  apply StateT.ext
  intro known
  rw [run_closureWithin]
  unfold listOf
  cases s.facts? h <;> rfl

/-- **One definition.** Two computations of its list go together if they keep the same of it, and gather the same. -/
theorem together_listOf {S : Closures → Closures → Prop} {P : TypeRef → Prop} {h : TypeHandle}
    {closure closure' : TypeHandle → Resolving (List TypeRef)}
    (hkept : ∀ known known', R known known' → known'.lookup h = known.lookup h ∧ ∀ list, known.lookup h = some list →
      ∀ i ∈ list, P i)
    (hnone : ∀ known known', R known known' → known.lookup h = none → s.facts? h = none →
      R ((h, []) :: known) ((h, []) :: known'))
    (hseed : ∀ facts known known', R known known' → known.lookup h = none → s.facts? h = some facts →
      S ((h, []) :: known) ((h, []) :: known'))
    (hgather : ∀ facts, s.facts? h = some facts →
      Together S (Same P) (s.gatherWith closure facts) (s.gatherWith closure' facts))
    (hkeep : ∀ known known' list, (∀ i ∈ list, P i) → S known known' → R ((h, list) :: known) ((h, list) :: known')) :
    Together R (Same P) (listOf h ((s.facts? h).map (s.gatherWith closure)))
      (listOf h ((s.facts? h).map (s.gatherWith closure'))) := by
  intro known known' hR
  obtain ⟨hsame, hlists⟩ := hkept known known' hR
  unfold listOf
  cases hknown : known.lookup h with
  | some list =>
    simp only [StateT.run, hsame, hknown]
    exact ⟨⟨rfl, hlists list hknown⟩, hR⟩
  | none =>
    simp only [StateT.run, hsame, hknown]
    cases hfacts : s.facts? h with
    | none => exact ⟨⟨rfl, List.forall_mem_nil _⟩, hnone known known' hR hknown hfacts⟩
    | some facts =>
      obtain ⟨⟨hresult, hall⟩, hnext⟩ := hgather facts hfacts _ _ (hseed facts known known' hR hknown hfacts)
      have hlast := hkeep _ _ _ hall hnext
      refine ⟨⟨hresult, hall⟩, ?_⟩
      change R _ ((h, ((s.gatherWith closure' facts).run ((h, []) :: known')).run.1) :: _)
      rw [← hresult]
      exact hlast

/-- so a computation of its list preserves what keeping a list does, if those of others do -/
theorem preserves_listOf {J I : Closures → Prop} {h : TypeHandle} {closure : TypeHandle → Resolving (List TypeRef)}
    (hnone : ∀ known, J known → J ((h, []) :: known))
    (hseed : ∀ facts known, J known → known.lookup h = none → s.facts? h = some facts → I ((h, []) :: known))
    (hclosure : ∀ k, s.Leads h k → Preserves I (closure k)) (hkeep : ∀ known list, I known → J ((h, list) :: known)) :
    Preserves J (listOf h ((s.facts? h).map (s.gatherWith closure))) := by
  refine Together.preserves (Q := Same fun _ => True) (together_listOf (S := Alongside I) ?_ ?_ ?_ ?_ ?_)
  · rintro known _ ⟨rfl, -⟩
    exact ⟨rfl, fun _ _ _ _ => trivial⟩
  · rintro known _ ⟨rfl, hJ⟩ - -
    exact ⟨rfl, hnone known hJ⟩
  · rintro facts known _ ⟨rfl, hJ⟩ hnew hfacts
    exact ⟨rfl, hseed facts known hJ hnew hfacts⟩
  · exact fun facts hfacts => together_gatherWith s.encloses_true hfacts fun k hk => (hclosure k hk).together_same
  · rintro known _ list - ⟨rfl, hI⟩
    exact ⟨rfl, hkeep known list hI⟩

/-! ## Depth -/

/-- how many definitions are not kept yet -/
def room (s : FactSet) (known : Closures) : Nat :=
  ((Finset.range s.entries.length).filter fun index => (known.lookup ⟨index⟩).isNone).card

theorem room_le (s : FactSet) (known : Closures) : s.room known ≤ s.entries.length := by
  refine (Finset.card_filter_le _ _).trans_eq ?_
  exact Finset.card_range _

/-- what is kept leaves less room -/
theorem room_anti {known known' : Closures} (hkept : ∀ k, known'.lookup k = none → known.lookup k = none) :
    s.room known' ≤ s.room known := by
  refine Finset.card_le_card fun index hindex => ?_
  rw [Finset.mem_filter, Option.isNone_iff_eq_none] at hindex ⊢
  exact ⟨hindex.1, hkept _ hindex.2⟩

theorem room_cons_le (known : Closures) (h : TypeHandle) (list : List TypeRef) :
    s.room ((h, list) :: known) ≤ s.room known := by
  refine room_anti fun k hk => ?_
  by_cases heq : k = h
  · rw [heq, Closures.lookup_cons_self] at hk
    cases hk
  · rwa [Closures.lookup_cons_of_ne list heq] at hk

theorem room_cons_lt {known : Closures} {h : TypeHandle} {facts : TypeFacts} (hfacts : s.facts? h = some facts)
    (hnew : known.lookup h = none) (list : List TypeRef) : s.room ((h, list) :: known) < s.room known := by
  refine Finset.card_lt_card ⟨?_, fun hsubset => ?_⟩
  · intro index hindex
    rw [Finset.mem_filter, Option.isNone_iff_eq_none] at hindex ⊢
    by_cases heq : (⟨index⟩ : TypeHandle) = h
    · rw [heq, Closures.lookup_cons_self] at hindex
      cases hindex.2
    · rwa [Closures.lookup_cons_of_ne list heq] at hindex
  · have hindex : h.index ∈ Finset.range s.entries.length := Finset.mem_range.2 (index_lt_of_facts? hfacts)
    have hmem := hsubset (Finset.mem_filter.2 ⟨hindex, Option.isNone_iff_eq_none.2 hnew⟩)
    rw [Finset.mem_filter, Closures.lookup_cons_self] at hmem
    cases hmem.2

/-- with room for less than the depth, more depth makes no difference -/
theorem together_closureWithin {depth depth' : Nat} (hdepth : depth ≤ depth') (h : TypeHandle) :
    Together (Alongside fun known => s.room known < depth) (Same fun _ => True) (s.closureWithin depth h)
      (s.closureWithin depth' h) := by
  induction depth generalizing depth' h with
  | zero =>
    rintro known _ ⟨-, hroom⟩
    exact absurd hroom (Nat.not_lt_zero _)
  | succ depth ih =>
    cases depth' with
    | zero => exact absurd hdepth (Nat.not_succ_le_zero _)
    | succ depth' =>
      rw [closureWithin_succ, closureWithin_succ]
      refine together_listOf (S := Alongside fun known => s.room known < depth) ?_ ?_ ?_ ?_ ?_
      · rintro known _ ⟨rfl, -⟩
        exact ⟨rfl, fun _ _ _ _ => trivial⟩
      · rintro known _ ⟨rfl, hroom⟩ - -
        exact ⟨rfl, (room_cons_le _ _ _).trans_lt hroom⟩
      · rintro facts known _ ⟨rfl, hroom⟩ hnew hfacts
        exact ⟨rfl, (room_cons_lt hfacts hnew []).trans_le (Nat.le_of_lt_succ hroom)⟩
      · exact fun facts hfacts => together_gatherWith s.encloses_true hfacts fun k _ => ih (Nat.le_of_succ_le_succ hdepth) k
      · rintro known _ list - ⟨rfl, hroom⟩
        exact ⟨rfl, (room_cons_le _ _ _).trans_lt (Nat.lt_succ_of_lt hroom)⟩

/-- **Depth.** There are no more definitions than the set knows, so a depth beyond their number is as good as any. -/
theorem closureWithin_eq_closure {depth : Nat} (hdepth : s.entries.length < depth) (h : TypeHandle) :
    s.closureWithin depth h = s.closure h := by
  apply StateT.ext
  intro known
  have hroom : s.room known < s.entries.length + 1 := Nat.lt_succ_of_le (s.room_le known)
  obtain ⟨⟨hresult, -⟩, hnext, -⟩ := together_closureWithin hdepth h known known ⟨rfl, hroom⟩
  exact (Prod.ext hresult hnext).symm

/-- **The computation without depths.** -/
theorem closure_eq (h : TypeHandle) : s.closure h = listOf h ((s.facts? h).map (s.gatherWith s.closure)) := by
  have hdeeper : s.closureWithin (s.entries.length + 1) = s.closure :=
    funext fun k => closureWithin_eq_closure (Nat.lt_succ_self _) k
  rw [← closureWithin_eq_closure (Nat.lt_succ_of_lt (Nat.lt_succ_self _)) h, closureWithin_succ, hdeeper]

/-- sets that share definitions compute their interfaces in the same way -/
theorem closure_shared {s' : FactSet} {on : TypeHandle → Prop} (hshares : Shares s s' on)
    (hlength : s.entries.length ≤ s'.entries.length) {h : TypeHandle} (hon : on h) : s'.closure h = s.closure h := by
  rw [closure, closureWithin_shared hshares _ hon, closureWithin_eq_closure (Nat.lt_succ_of_le hlength)]

end FactSet

end ApiSurface
