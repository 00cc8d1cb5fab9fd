/-
The runs of a resolver.

A definition is kept, with an empty list, from the moment it is begun, so whatever asks for it again on the way is answered
at once. Each definition is begun once, and a question ends however interfaces and base types lead into each other. What is
answered is reached from the question, one declared interface or base type after another, also where an empty list was read.

`exists_runs`: every question has a run, without any bound on the depth, and the run gives the answer.
`Runs.opens`: a run begins no definition twice, and none that was begun before.
`preserves_ask`: what the lists of definitions preserve, all questions to a resolver do.
`Runs.sound`: what is answered is reached, if what is kept is.
`Reaches.transGen_extends`: where references supply arguments, it does not matter on which way they are put in.
-/
import ApiSurface.Proofs.Interfaces.Growth

namespace ApiSurface

variable {α β : Type}

/-! ## Questions -/

namespace Resolving

variable {J : Closures → Prop} {m : Resolving α}

theorem preserves_pure (a : α) : Preserves J (pure a) := fun _ hJ => hJ

theorem Preserves.bind {f : α → Resolving β} (hm : Preserves J m) (hf : ∀ a, Preserves J (f a)) :
    Preserves J (m >>= f) := fun known hJ => hf _ _ (hm known hJ)

theorem Preserves.mapM {f : α → Resolving β} (hf : ∀ a, Preserves J (f a)) (xs : List α) : Preserves J (xs.mapM f) := by
  induction xs with
  | nil => exact preserves_pure _
  | cons x rest ih =>
    rw [List.mapM_cons]
    exact (hf x).bind fun _ => ih.bind fun _ => preserves_pure _

end Resolving

/-- what was kept of a definition, the latest first -/
def Closures.kept (known : Closures) (h : TypeHandle) : List (List TypeRef) :=
  known.filterMap fun (k, list) => if k = h then some list else none

namespace Closures

variable {known : Closures} {h k : TypeHandle} {list : List TypeRef}

theorem kept_cons_self : kept ((h, list) :: known) h = list :: known.kept h :=
  List.filterMap_cons_some (if_pos rfl)

theorem kept_cons_of_ne (hne : k ≠ h) : kept ((h, list) :: known) k = known.kept k :=
  List.filterMap_cons_none (if_neg hne.symm)

/-- the latest counts -/
theorem lookup_eq_head? (known : Closures) (h : TypeHandle) : known.lookup h = (known.kept h).head? := by
  induction known with
  | nil => rfl
  | cons entry rest ih =>
    obtain ⟨k, list⟩ := entry
    by_cases heq : k = h
    · subst heq
      rw [lookup_cons_self, kept_cons_self, List.head?_cons]
    · rw [lookup_cons_of_ne list (Ne.symm heq), kept_cons_of_ne (Ne.symm heq), ih]

theorem kept_eq_nil : known.kept h = [] ↔ known.lookup h = none := by
  rw [lookup_eq_head?, List.head?_eq_none_iff]

end Closures

open Resolving

namespace FactSet

variable {s : FactSet} {J : Closures → Prop} (hJ : ∀ h, Preserves J (s.closure h)) (visible : TypeRef → Bool)
include hJ

theorem preserves_allInterfaces (r : TypeRef) : Preserves J (s.allInterfaces r) := by
  unfold allInterfaces interfacesVia
  cases s.resolve r with
  | none => exact preserves_pure _
  | some k => exact (hJ k).bind fun _ => preserves_pure _

theorem preserves_directInterfaces (h : TypeHandle) : Preserves J (s.directInterfaces visible h) := by
  have hall := preserves_allInterfaces hJ
  unfold directInterfaces
  cases s.facts? h with
  | none => exact preserves_pure _
  | some facts =>
    refine (hJ h).bind fun _ => ?_
    split
    · exact (Preserves.mapM hall _).bind fun _ => preserves_pure _
    · cases facts.baseType with
      | none => exact (preserves_pure []).bind fun _ => preserves_pure _
      | some base => exact (hall base).bind fun _ => preserves_pure _

theorem preserves_constraintSet (g : GenericFacts) : Preserves J (s.constraintSet visible g) :=
  Together.preserves (Q := fun bounds bounds' => bounds = bounds') (together_constraintSet (P := fun _ => True)
    (N := fun _ => True) (fun _ _ => trivial) (fun _ _ => rfl) (fun _ _ => rfl)
    (fun c _ _ => (preserves_allInterfaces hJ c).together_same) (fun _ _ => rfl) fun _ _ => trivial)

/-- **Questions.** A resolver asks for nothing but the lists of definitions. -/
theorem preserves_ask (q : Query) : Preserves J (q.ask s visible) := by
  cases q with
  | direct h => exact preserves_directInterfaces hJ visible h
  | all r => exact preserves_allInterfaces hJ r
  | declared r => exact preserves_pure _
  | constraints g => exact preserves_constraintSet hJ visible g

/-- what a resolver keeps after a sequence of questions -/
def keptAfter (s : FactSet) (visible : TypeRef → Bool) (queries : List Query) : Closures :=
  ((queries.mapM (Query.ask s visible)).run []).run.2

theorem keptAfter_of_preserves (hempty : J []) (queries : List Query) : J (s.keptAfter visible queries) :=
  Preserves.mapM (preserves_ask hJ visible) queries [] hempty

end FactSet

/-! ## Runs -/

/-- what a resolver does on its way -/
inductive Task where
  /-- the interfaces of a definition -/
  | definition (h : TypeHandle)
  /-- those of a reference -/
  | reference (r : TypeRef)
  /-- declared interfaces, each with those of it -/
  | declared (interfaces : List TypeRef)
  /-- those of a base type, if there is one -/
  | inherited (base : Option TypeRef)
deriving DecidableEq, Repr

def Task.ask (s : FactSet) : Task → Resolving (List TypeRef)
  | definition h => s.closure h
  | reference r => s.allInterfaces r
  | declared interfaces => do
    let lists ← interfaces.mapM fun i => do
      let extended ← s.allInterfaces i
      return i :: extended
    return lists.flatten
  | inherited base => base.elim (pure []) s.allInterfaces

namespace FactSet

variable {s : FactSet}

/-- a run of a task: what was kept, the answer, what is kept then, and the definitions that were begun, in order -/
inductive Runs (s : FactSet) : Task → Closures → List TypeRef → Closures → List TypeHandle → Prop
  | kept {h : TypeHandle} {known : Closures} {list : List TypeRef} (hkept : known.lookup h = some list) :
      Runs s (.definition h) known list known []
  | unknown {h : TypeHandle} {known : Closures} (hnew : known.lookup h = none) (hfacts : s.facts? h = none) :
      Runs s (.definition h) known [] ((h, []) :: known) [h]
  | begun {h : TypeHandle} {known middle last : Closures} {facts : TypeFacts} {declared inherited : List TypeRef}
      {first second : List TypeHandle} (hnew : known.lookup h = none) (hfacts : s.facts? h = some facts)
      (hdeclared : Runs s (.declared facts.interfaces) ((h, []) :: known) declared middle first)
      (hinherited : Runs s (.inherited facts.parent?) middle inherited last second) :
      Runs s (.definition h) known (TypeRef.distinct (declared ++ inherited))
        ((h, TypeRef.distinct (declared ++ inherited)) :: last) (h :: (first ++ second))
  | dangling {r : TypeRef} {known : Closures} (hr : s.resolve r = none) : Runs s (.reference r) known [] known []
  | resolved {r : TypeRef} {h : TypeHandle} {known after : Closures} {list : List TypeRef} {begun : List TypeHandle}
      (hr : s.resolve r = some h) (hlist : Runs s (.definition h) known list after begun) :
      Runs s (.reference r) known (list.map (TypeRef.substitute r.withoutByRef.arguments)) after begun
  | nil {known : Closures} : Runs s (.declared []) known [] known []
  | cons {i : TypeRef} {rest extended others : List TypeRef} {known middle after : Closures}
      {first second : List TypeHandle} (hextended : Runs s (.reference i) known extended middle first)
      (hothers : Runs s (.declared rest) middle others after second) :
      Runs s (.declared (i :: rest)) known (i :: extended ++ others) after (first ++ second)
  | rootless {known : Closures} : Runs s (.inherited none) known [] known []
  | base {base : TypeRef} {known after : Closures} {list : List TypeRef} {begun : List TypeHandle}
      (hlist : Runs s (.reference base) known list after begun) : Runs s (.inherited (some base)) known list after begun

/-- the task has a run that gives the answer -/
def Ends (s : FactSet) (task : Task) (known : Closures) : Prop :=
  ∃ begun, s.Runs task known ((task.ask s).run known).run.1 ((task.ask s).run known).run.2 begun

theorem ask_declared_cons (i : TypeRef) (rest : List TypeRef) : (Task.declared (i :: rest)).ask s =
    s.allInterfaces i >>= fun extended => (Task.declared rest).ask s >>= fun others => pure (i :: extended ++ others) := by
  unfold Task.ask
  simp only [List.mapM_cons, bind_assoc, pure_bind, List.flatten_cons]

theorem gatherWith_closure (facts : TypeFacts) : s.gatherWith s.closure facts =
    (Task.declared facts.interfaces).ask s >>= fun declared => (Task.inherited facts.parent?).ask s >>= fun inherited =>
      pure (TypeRef.distinct (declared ++ inherited)) := by
  unfold gatherWith Task.ask
  simp only [bind_assoc, pure_bind]
  rfl

section

variable {n : Nat} (hdefinition : ∀ h known, s.room known < n → s.Ends (.definition h) known)
include hdefinition

theorem ends_reference (r : TypeRef) {known : Closures} (hroom : s.room known < n) : s.Ends (.reference r) known := by
  rw [Ends, Task.ask, allInterfaces, interfacesVia]
  cases hr : s.resolve r with
  | none => exact ⟨[], .dangling hr⟩
  | some k =>
    obtain ⟨begun, hrun⟩ := hdefinition k known hroom
    exact ⟨begun, .resolved hr hrun⟩

theorem ends_declared (interfaces : List TypeRef) {known : Closures} (hroom : s.room known < n) :
    s.Ends (.declared interfaces) known := by
  induction interfaces generalizing known with
  | nil => exact ⟨[], .nil⟩
  | cons i rest ih =>
    obtain ⟨first, hfirst⟩ := ends_reference hdefinition i hroom
    obtain ⟨second, hsecond⟩ := ih (preserves_allInterfaces (s.preserves_room n) i known hroom)
    unfold Ends
    rw [ask_declared_cons]
    exact ⟨first ++ second, .cons hfirst hsecond⟩

theorem ends_inherited (base : Option TypeRef) {known : Closures} (hroom : s.room known < n) :
    s.Ends (.inherited base) known := by
  cases base with
  | none => exact ⟨[], .rootless⟩
  | some base =>
    obtain ⟨begun, hrun⟩ := ends_reference hdefinition base hroom
    exact ⟨begun, .base hrun⟩

end

/-- with little room left, a definition ends: what it begins has less -/
theorem ends_definition (n : Nat) (h : TypeHandle) (known : Closures) (hroom : s.room known < n) :
    s.Ends (.definition h) known := by
  induction n generalizing h known with
  | zero => exact absurd hroom (Nat.not_lt_zero _)
  | succ n ih =>
    rw [Ends, Task.ask, closure_eq]
    unfold listOf
    cases hknown : known.lookup h with
    | some list =>
      simp only [StateT.run, hknown]
      exact ⟨[], .kept hknown⟩
    | none =>
      simp only [StateT.run, hknown]
      cases hfacts : s.facts? h with
      | none => exact ⟨[h], .unknown hknown hfacts⟩
      | some facts =>
        have hseeded : s.room ((h, []) :: known) < n :=
          (room_cons_lt hfacts hknown []).trans_le (Nat.le_of_lt_succ hroom)
        obtain ⟨first, hfirst⟩ := ends_declared ih facts.interfaces hseeded
        have hmiddle := Preserves.mapM (fun i => (preserves_allInterfaces (s.preserves_room n) i).bind fun extended =>
          preserves_pure (i :: extended)) facts.interfaces _ hseeded
        obtain ⟨second, hsecond⟩ := ends_inherited ih facts.parent? hmiddle
        refine ⟨h :: (first ++ second), ?_⟩
        dsimp only [Option.map_some]
        rw [gatherWith_closure]
        exact .begun hknown hfacts hfirst hsecond

/-- **Every question ends**, whatever was asked before: a run without any bound on its depth gives the answer. -/
theorem exists_runs (s : FactSet) (task : Task) (known : Closures) : s.Ends task known := by
  have hdefinition : ∀ h known, s.room known < s.entries.length + 1 → s.Ends (.definition h) known := ends_definition _
  have hroom : s.room known < s.entries.length + 1 := Nat.lt_succ_of_le (s.room_le known)
  cases task with
  | definition h => exact hdefinition h known hroom
  | reference r => exact ends_reference hdefinition r hroom
  | declared interfaces => exact ends_declared hdefinition interfaces hroom
  | inherited base => exact ends_inherited hdefinition base hroom

/-! ## Definitions are begun once -/

/-- what is kept of a definition that was begun once: an empty list, and then its interfaces if there are facts -/
def KeptOnce (s : FactSet) (h : TypeHandle) (lists : List (List TypeRef)) : Prop :=
  match s.facts? h with
  | none => lists = [[]]
  | some _ => ∃ list, lists = [list, []]

/-- between two times the definitions were begun, each for the first and only time -/
structure Opens (s : FactSet) (known after : Closures) (begun : List TypeHandle) : Prop where
  nodup : begun.Nodup
  fresh : ∀ h ∈ begun, known.kept h = []
  once : ∀ h ∈ begun, s.KeptOnce h (after.kept h)
  others : ∀ h, h ∉ begun → after.kept h = known.kept h

theorem KeptOnce.ne_nil {h : TypeHandle} {lists : List (List TypeRef)} (hlists : s.KeptOnce h lists) : lists ≠ [] := by
  unfold KeptOnce at hlists
  split at hlists
  · rw [hlists]
    exact List.cons_ne_nil _ _
  · obtain ⟨list, rfl⟩ := hlists
    exact List.cons_ne_nil _ _

namespace Opens

theorem refl (known : Closures) : s.Opens known known [] where
  nodup := List.nodup_nil
  fresh := List.forall_mem_nil _
  once := List.forall_mem_nil _
  others _ _ := rfl

theorem trans {known middle after : Closures} {first second : List TypeHandle} (hfirst : s.Opens known middle first)
    (hsecond : s.Opens middle after second) : s.Opens known after (first ++ second) := by
  have hdisjoint : ∀ h ∈ first, h ∉ second := fun h h₁ h₂ => (hfirst.once h h₁).ne_nil (hsecond.fresh h h₂)
  refine ⟨?_, ?_, ?_, ?_⟩
  · exact hfirst.nodup.append hsecond.nodup fun h h₁ h₂ => hdisjoint h h₁ h₂
  · intro h hh
    by_cases h₁ : h ∈ first
    · exact hfirst.fresh h h₁
    · rw [← hfirst.others h h₁]
      exact hsecond.fresh h ((List.mem_append.1 hh).resolve_left h₁)
  · intro h hh
    by_cases h₂ : h ∈ second
    · exact hsecond.once h h₂
    · rw [hsecond.others h h₂]
      exact hfirst.once h ((List.mem_append.1 hh).resolve_right h₂)
  · intro h hh
    rw [List.mem_append, not_or] at hh
    rw [hsecond.others h hh.2, hfirst.others h hh.1]

/-- a definition for which an empty list stands while others are begun -/
theorem begin_definition {known last : Closures} {h : TypeHandle} {facts : TypeFacts} {begun : List TypeHandle}
    {list : List TypeRef} (hnew : known.kept h = []) (hfacts : s.facts? h = some facts)
    (hrest : s.Opens ((h, []) :: known) last begun) : s.Opens known ((h, list) :: last) (h :: begun) := by
  have hself : h ∉ begun := by
    intro hmem
    have hkept := hrest.fresh h hmem
    rw [Closures.kept_cons_self] at hkept
    exact List.cons_ne_nil _ _ hkept
  have hseed : last.kept h = [[]] := by rw [hrest.others h hself, Closures.kept_cons_self, hnew]
  have hne : ∀ k ∈ begun, k ≠ h := fun k hk heq => hself (heq ▸ hk)
  refine ⟨List.nodup_cons.2 ⟨hself, hrest.nodup⟩, List.forall_mem_cons.2 ⟨hnew, fun k hk => ?_⟩,
    List.forall_mem_cons.2 ⟨?_, fun k hk => ?_⟩, fun k hk => ?_⟩
  · rw [← hrest.fresh k hk, Closures.kept_cons_of_ne (hne k hk)]
  · rw [KeptOnce, hfacts, Closures.kept_cons_self, hseed]
    exact ⟨list, rfl⟩
  · rw [Closures.kept_cons_of_ne (hne k hk)]
    exact hrest.once k hk
  · rw [List.mem_cons, not_or] at hk
    rw [Closures.kept_cons_of_ne hk.1, hrest.others k hk.2, Closures.kept_cons_of_ne hk.1]

end Opens

/-- **A run begins each definition at most once**, and none that was begun before. -/
theorem Runs.opens {task : Task} {known after : Closures} {answer : List TypeRef} {begun : List TypeHandle}
    (hrun : s.Runs task known answer after begun) : s.Opens known after begun := by
  induction hrun with
  | kept => exact .refl _
  | @unknown h known hnew hfacts =>
    have hkept : known.kept h = [] := Closures.kept_eq_nil.2 hnew
    refine ⟨List.nodup_singleton h, List.forall_mem_singleton.2 hkept, List.forall_mem_singleton.2 ?_, fun k hk => ?_⟩
    · rw [KeptOnce, hfacts, Closures.kept_cons_self, hkept]
    · exact Closures.kept_cons_of_ne fun heq => hk (List.mem_singleton.2 heq)
  | begun hnew hfacts _ _ hdeclared hinherited =>
    exact (hdeclared.trans hinherited).begin_definition (Closures.kept_eq_nil.2 hnew) hfacts
  | dangling => exact .refl _
  | resolved _ _ ih => exact ih
  | nil => exact .refl _
  | cons _ _ hextended hothers => exact hextended.trans hothers
  | rootless => exact .refl _
  | base _ ih => exact ih

/-- each definition was begun at most once -/
def Tidy (s : FactSet) (known : Closures) : Prop := ∀ h, known.kept h = [] ∨ s.KeptOnce h (known.kept h)

theorem tidy_nil (s : FactSet) : s.Tidy [] := fun _ => Or.inl rfl

theorem Opens.tidy {known after : Closures} {begun : List TypeHandle} (hopens : s.Opens known after begun)
    (hknown : s.Tidy known) : s.Tidy after := by
  intro h
  by_cases hh : h ∈ begun
  · exact Or.inr (hopens.once h hh)
  · rw [hopens.others h hh]
    exact hknown h

theorem preserves_tidy (h : TypeHandle) : Preserves s.Tidy (s.closure h) := by
  intro known hknown
  obtain ⟨begun, hrun⟩ := s.exists_runs (.definition h) known
  exact hrun.opens.tidy hknown

/-! ## Nothing is invented -/

/-- an interface that a definition declares, by way of the interfaces and base types between, the arguments of each put in -/
inductive Reaches (s : FactSet) : TypeRef → TypeRef → Prop
  | declared {r i : TypeRef} {facts : TypeFacts} (hfacts : s.definition? r = some facts) (hi : i ∈ facts.interfaces) :
      Reaches s r (i.substitute r.withoutByRef.arguments)
  | through {r q i : TypeRef} {facts : TypeFacts} (hfacts : s.definition? r = some facts) (hq : q ∈ facts.supers)
      (hi : Reaches s q i) : Reaches s r (i.substitute r.withoutByRef.arguments)

/-- what the task may answer -/
def MayAnswer (s : FactSet) : Task → TypeRef → Prop
  | .definition h, i => ∃ facts, s.facts? h = some facts ∧ (i ∈ facts.interfaces ∨ ∃ q ∈ facts.supers, s.Reaches q i)
  | .reference r, i => s.Reaches r i
  | .declared interfaces, i => i ∈ interfaces ∨ ∃ q ∈ interfaces, s.Reaches q i
  | .inherited base, i => ∃ q ∈ base, s.Reaches q i

/-- all that is kept of a definition is reached from it -/
def Sound (s : FactSet) (known : Closures) : Prop :=
  ∀ h list, known.lookup h = some list → ∀ i ∈ list, s.MayAnswer (.definition h) i

theorem Sound.cons {known : Closures} {h : TypeHandle} {list : List TypeRef} (hknown : s.Sound known)
    (hlist : ∀ i ∈ list, s.MayAnswer (.definition h) i) : s.Sound ((h, list) :: known) := by
  intro k list' hlookup
  by_cases heq : k = h
  · subst heq
    rw [Closures.lookup_cons_self, Option.some.injEq] at hlookup
    exact hlookup ▸ hlist
  · rw [Closures.lookup_cons_of_ne list heq] at hlookup
    exact hknown k list' hlookup

/-- **A run invents no interface**, also where it reads the empty list of a definition that was only begun. -/
theorem Runs.sound {task : Task} {known after : Closures} {answer : List TypeRef} {begun : List TypeHandle}
    (hrun : s.Runs task known answer after begun) (hknown : s.Sound known) :
    (∀ i ∈ answer, s.MayAnswer task i) ∧ s.Sound after := by
  induction hrun with
  | kept hkept => exact ⟨hknown _ _ hkept, hknown⟩
  | unknown => exact ⟨List.forall_mem_nil _, hknown.cons (List.forall_mem_nil _)⟩
  | @begun h known middle last facts declared inherited first second _ hfacts _ _ ihDeclared ihInherited =>
    obtain ⟨hdeclared, hmiddle⟩ := ihDeclared (hknown.cons (List.forall_mem_nil _))
    obtain ⟨hinherited, hlast⟩ := ihInherited hmiddle
    have hanswer : ∀ i ∈ TypeRef.distinct (declared ++ inherited), s.MayAnswer (.definition h) i := by
      intro i hi
      refine ⟨facts, hfacts, ?_⟩
      rcases List.mem_append.1 (mem_of_mem_distinctAfter hi) with hi | hi
      · exact (hdeclared i hi).imp_right fun ⟨q, hq, hreach⟩ => ⟨q, TypeFacts.mem_supers.2 (Or.inl hq), hreach⟩
      · obtain ⟨q, hq, hreach⟩ := hinherited i hi
        exact Or.inr ⟨q, TypeFacts.mem_supers.2 (Or.inr hq), hreach⟩
    exact ⟨hanswer, hlast.cons hanswer⟩
  | dangling => exact ⟨List.forall_mem_nil _, hknown⟩
  | resolved hr _ ih =>
    obtain ⟨hlist, hafter⟩ := ih hknown
    refine ⟨fun i hi => ?_, hafter⟩
    obtain ⟨j, hj, rfl⟩ := List.mem_map.1 hi
    obtain ⟨facts, hfacts, hmay⟩ := hlist j hj
    have hdefinition : s.definition? _ = some facts := (definition?_of_resolve hr).trans hfacts
    rcases hmay with hdeclared | ⟨q, hq, hreach⟩
    · exact .declared hdefinition hdeclared
    · exact .through hdefinition hq hreach
  | nil => exact ⟨List.forall_mem_nil _, hknown⟩
  | cons _ _ hextended hothers =>
    obtain ⟨hextended, hmiddle⟩ := hextended hknown
    obtain ⟨hothers, hafter⟩ := hothers hmiddle
    refine ⟨fun j hj => ?_, hafter⟩
    rcases List.mem_append.1 hj with hj | hj
    · rcases List.mem_cons.1 hj with rfl | hj
      · exact Or.inl List.mem_cons_self
      · exact Or.inr ⟨_, List.mem_cons_self, hextended j hj⟩
    · exact (hothers j hj).imp (List.mem_cons_of_mem _) fun ⟨q, hq, hreach⟩ => ⟨q, List.mem_cons_of_mem _ hq, hreach⟩
  | rootless => exact ⟨List.forall_mem_nil _, hknown⟩
  | base _ ih =>
    obtain ⟨hlist, hafter⟩ := ih hknown
    exact ⟨fun i hi => ⟨_, rfl, hlist i hi⟩, hafter⟩

theorem preserves_sound (h : TypeHandle) : Preserves s.Sound (s.closure h) := by
  intro known hknown
  obtain ⟨begun, hrun⟩ := s.exists_runs (.definition h) known
  exact (hrun.sound hknown).2

/-- **All interfaces are reached**, after any sequence of questions. -/
theorem reaches_of_mem_allInterfaces (visible : TypeRef → Bool) (queries : List Query) (r : TypeRef) {i : TypeRef}
    (hi : i ∈ ((s.allInterfaces r).run (s.keptAfter visible queries)).run.1) : s.Reaches r i := by
  have hkept : s.Sound (s.keptAfter visible queries) :=
    keptAfter_of_preserves preserves_sound visible (fun _ _ hlist => by cases hlist) queries
  obtain ⟨begun, hrun⟩ := s.exists_runs (.reference r) (s.keptAfter visible queries)
  exact (hrun.sound hkept).1 i hi

/-! ## The way down -/

/-- a reference leads to one that its definition declares or extends, with the reference's arguments -/
def Extends (s : FactSet) (r r' : TypeRef) : Prop :=
  ∃ facts, s.definition? r = some facts ∧ ∃ q ∈ facts.supers, r' = q.substitute r.withoutByRef.arguments

theorem isPlaceholder_of_definition? {r : TypeRef} {facts : TypeFacts} (hfacts : s.definition? r = some facts) :
    r.isPlaceholder = false := by
  have hbare : r.isPlaceholder = true → r.withoutByRef.definitionKey? = none := by
    intro hr
    induction r using TypeRef.inductionOn with
    | parameter => rfl
    | byRef element ih => exact ih hfacts hr
    | named => cases hr
    | array => cases hr
    | pointer => cases hr
  rw [definition?, resolve] at hfacts
  refine Bool.eq_false_iff.2 fun hr => ?_
  rw [hbare hr] at hfacts
  cases hfacts

section

variable (hsupplied : ∀ h facts, s.facts? h = some facts → ∀ r ∈ facts.supers, s.Supplies r)
include hsupplied

theorem supplies_of_definition? {r q : TypeRef} {facts : TypeFacts} (hfacts : s.definition? r = some facts)
    (hq : q ∈ facts.supers) : s.Supplies q := by
  obtain ⟨k, -, hk⟩ := Option.bind_eq_some_iff.1 hfacts
  exact hsupplied k facts hk q hq

/-- all positions of what is reached are positions of the reference -/
theorem Reaches.positions {r i : TypeRef} (hi : s.Reaches r i) (hr : s.Supplies r) : ∀ p ∈ i.positions, p ∈ r.positions := by
  induction hi with
  | @declared r i facts hfacts hi =>
    intro p hp
    obtain ⟨a, ha, hpa⟩ := TypeRef.mem_positions_substitute (hr facts hfacts i (TypeFacts.mem_supers.2 (Or.inl hi))) hp
    exact TypeRef.mem_positions_of_argument ha hpa
  | @through r q i facts hfacts hq hi ih =>
    intro p hp
    have hcovered : ∀ p ∈ i.positions, p < r.withoutByRef.arguments.length := fun p hp =>
      hr facts hfacts q hq p (ih (supplies_of_definition? hsupplied hfacts hq) p hp)
    obtain ⟨a, ha, hpa⟩ := TypeRef.mem_positions_substitute hcovered hp
    exact TypeRef.mem_positions_of_argument ha hpa

/-- **Where references supply arguments**, they may as well be put in on the way down, one reference after another. -/
theorem Reaches.transGen_extends {r i : TypeRef} (hi : s.Reaches r i) (hr : s.Supplies r) (arguments : List TypeRef) :
    Relation.TransGen s.Extends (r.substitute arguments) (i.substitute arguments) := by
  have hstep : ∀ {r q : TypeRef} {facts : TypeFacts}, s.definition? r = some facts → q ∈ facts.supers →
      ∀ arguments, s.Extends (r.substitute arguments)
        (q.substitute (r.withoutByRef.arguments.map (TypeRef.substitute arguments))) := by
    intro r q facts hfacts hq arguments
    have hplain := isPlaceholder_of_definition? hfacts
    refine ⟨facts, ?_, q, hq, ?_⟩
    · rw [definition?, resolve_substitute arguments hplain]
      exact hfacts
    · rw [TypeRef.arguments_substitute arguments hplain]
  induction hi generalizing arguments with
  | @declared r i facts hfacts hi =>
    have hsuper := TypeFacts.mem_supers.2 (Or.inl hi)
    rw [TypeRef.substitute_substitute _ _ _ (hr facts hfacts i hsuper)]
    exact .single (hstep hfacts hsuper arguments)
  | @through r q i facts hfacts hq hi ih =>
    have hsupplies := supplies_of_definition? hsupplied hfacts hq
    rw [TypeRef.substitute_substitute _ _ _ fun p hp =>
      hr facts hfacts q hq p (hi.positions hsupplied hsupplies p hp)]
    exact .head (hstep hfacts hq arguments) (ih hsupplies _)

end

end FactSet

end ApiSurface
