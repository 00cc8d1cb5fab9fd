/-
Extraction ends, however badly types lead into each other.

An extraction has three loops that follow references. The resolver's one ends because a definition is kept from the moment it
is begun. The search for interface slots goes up base types, whose arguments may grow on every turn of a circle, and stops at
a type that it has visited. What is exported is asked of the declaring type, which has a shorter key.

`exists_climbs`, `Climbs.nodup`: the search for slots ends without any bound on its steps, and visits no type twice.
`wellFounded_declaring`: no chain of declaring types goes on forever.
`preserves_describeTypes`: an extraction asks its resolver a sequence of questions.
`extraction_ends`: all loops, and what is answered on the way.
-/
import ApiSurface.Proofs.Extraction.Growth
import ApiSurface.Proofs.Interfaces.Runs

namespace ApiSurface

variable {α β : Type}

/-! ## Slots -/

namespace FactSet

variable {s : FactSet} {name : String} {visited trace : List TypeHandle} {h : TypeHandle} {arguments : List TypeRef}
  {slots : List InterfaceSlot}

/-- a search for slots up the base types, after some types were visited: the slots, and the types that it visits, in order -/
inductive Climbs (s : FactSet) (name : String) :
    List TypeHandle → TypeHandle → List TypeRef → List InterfaceSlot → List TypeHandle → Prop
  | again {visited : List TypeHandle} {h : TypeHandle} {arguments : List TypeRef} (hvisited : h ∈ visited) :
      Climbs s name visited h arguments [] []
  | unknown {visited : List TypeHandle} {h : TypeHandle} {arguments : List TypeRef} (hnew : h ∉ visited)
      (hentry : s.entry? h = none) : Climbs s name visited h arguments [] [h]
  | found {visited : List TypeHandle} {h : TypeHandle} {arguments : List TypeRef} {entry : TypeEntry} (hnew : h ∉ visited)
      (hentry : s.entry? h = some entry) (hslots : ownSlots h entry arguments name ≠ []) :
      Climbs s name visited h arguments (ownSlots h entry arguments name) [h]
  | top {visited : List TypeHandle} {h : TypeHandle} {arguments : List TypeRef} {entry : TypeEntry} (hnew : h ∉ visited)
      (hentry : s.entry? h = some entry) (hslots : ownSlots h entry arguments name = [])
      (hbase : (entry.facts.baseType.bind fun base => s.resolve (base.substitute arguments)) = none) :
      Climbs s name visited h arguments [] [h]
  | up {visited trace : List TypeHandle} {h next : TypeHandle} {arguments : List TypeRef} {entry : TypeEntry} {base : TypeRef}
      {slots : List InterfaceSlot} (hnew : h ∉ visited) (hentry : s.entry? h = some entry)
      (hslots : ownSlots h entry arguments name = []) (hbase : entry.facts.baseType = some base)
      (hnext : s.resolve (base.substitute arguments) = some next)
      (hrest : Climbs s name (h :: visited) next (base.substitute arguments).arguments slots trace) :
      Climbs s name visited h arguments slots (h :: trace)

/-- a search visits no type twice -/
theorem Climbs.nodup (hclimb : s.Climbs name visited h arguments slots trace) :
    trace.Nodup ∧ ∀ k ∈ trace, k ∉ visited := by
  induction hclimb with
  | again => exact ⟨List.nodup_nil, List.forall_mem_nil _⟩
  | unknown hnew => exact ⟨List.nodup_singleton _, List.forall_mem_singleton.2 hnew⟩
  | found hnew => exact ⟨List.nodup_singleton _, List.forall_mem_singleton.2 hnew⟩
  | top hnew => exact ⟨List.nodup_singleton _, List.forall_mem_singleton.2 hnew⟩
  | up hnew _ _ _ _ _ ih =>
    obtain ⟨hnodup, hrest⟩ := ih
    refine ⟨List.nodup_cons.2 ⟨fun hmem => hrest _ hmem List.mem_cons_self, hnodup⟩, List.forall_mem_cons.2 ⟨hnew, ?_⟩⟩
    exact fun k hk hvisited => hrest k hk (List.mem_cons_of_mem _ hvisited)

/-- there are no more visited types than the set knows -/
theorem length_visited_le (hnodup : visited.Nodup) (hknown : ∀ k ∈ visited, s.Has k) :
    visited.length ≤ s.entries.length := by
  have hsubset : visited ⊆ (List.range s.entries.length).map TypeHandle.mk := fun k hk =>
    List.mem_map.2 ⟨k.index, List.mem_range.2 (hknown k hk), rfl⟩
  calc visited.length ≤ ((List.range s.entries.length).map TypeHandle.mk).length :=
        (List.subperm_of_subset hnodup hsubset).length_le
    _ = s.entries.length := by rw [List.length_map, List.length_range]

/-- with steps for every type that was not visited, a search ends by itself -/
theorem exists_climbs_within (steps : Nat) (hnodup : visited.Nodup) (hknown : ∀ k ∈ visited, s.Has k)
    (hsteps : s.entries.length < steps + visited.length) :
    ∃ trace, s.Climbs name visited h arguments (s.slotsFrom name steps visited h arguments) trace := by
  induction steps generalizing visited h arguments with
  | zero =>
    have hlength := length_visited_le hnodup hknown
    omega
  | succ steps ih =>
    rw [slotsFrom]
    split
    · next hvisited => exact ⟨[], .again (List.contains_iff_mem.1 hvisited)⟩
    · next hnew =>
      have hnew : h ∉ visited := fun hmem => hnew (List.contains_iff_mem.2 hmem)
      cases hentry : s.entry? h with
      | none => exact ⟨[h], .unknown hnew hentry⟩
      | some entry =>
        dsimp only
        split
        · next hslots =>
          cases hbase : entry.facts.baseType with
          | none => exact ⟨[h], .top hnew hentry hslots (by rw [hbase]; rfl)⟩
          | some base =>
            dsimp only
            cases hnext : s.resolve (base.substitute arguments) with
            | none => exact ⟨[h], .top hnew hentry hslots (by rw [hbase]; exact hnext)⟩
            | some next =>
              have hhas : s.Has h := (List.getElem?_eq_some_iff.1 hentry).1
              obtain ⟨trace, htrace⟩ : ∃ trace, s.Climbs name (h :: visited) next (base.substitute arguments).arguments
                  (s.slotsFrom name steps (h :: visited) next (base.substitute arguments).arguments) trace :=
                ih (List.nodup_cons.2 ⟨hnew, hnodup⟩) (List.forall_mem_cons.2 ⟨hhas, hknown⟩)
                  (by rw [List.length_cons]; omega)
              exact ⟨h :: trace, .up hnew hentry hslots hbase hnext htrace⟩
        · next hslots => exact ⟨[h], .found hnew hentry hslots⟩

/-- **Every search for slots ends** by itself, and gives the slots. -/
theorem exists_climbs (s : FactSet) (h : TypeHandle) (i : TypeRef) :
    ∃ trace, s.Climbs i.canonicalName [] h [] (s.interfaceMap h i) trace :=
  exists_climbs_within _ List.nodup_nil (List.forall_mem_nil _) (Nat.lt_succ_self _)

/-! ## Declaring types -/

/-- the facts that decide, besides its own visibility, whether a type is exported -/
def declaringFacts? (s : FactSet) (facts : TypeFacts) : Option TypeFacts := facts.reference.declaring?.bind s.definition?

theorem declaringLength_of_declaringFacts? {facts outer : TypeFacts} (houter : s.declaringFacts? facts = some outer) :
    ∃ key, outer.reference.definitionKey? = some key ∧ facts.reference.declaringLength = key.length + 1 := by
  obtain ⟨declaring, hdeclaring, houter⟩ := Option.bind_eq_some_iff.1 houter
  obtain ⟨key, hkey, hkey'⟩ := definitionKey_of_definition? houter
  refine ⟨key, hkey', ?_⟩
  simp only [TypeRef.declaringLength, hdeclaring, hkey]

/-- the definition of a declaring type has a key, and a shorter one -/
theorem shorter_of_declaringFacts? {facts outer : TypeFacts} (houter : s.declaringFacts? facts = some outer) :
    ∃ key, outer.reference.definitionKey? = some key ∧
      ∀ own, facts.reference.definitionKey? = some own → key.length < own.length := by
  obtain ⟨key, hkey, hlength⟩ := declaringLength_of_declaringFacts? houter
  refine ⟨key, hkey, fun own hown => ?_⟩
  have hle := TypeRef.declaringLength_le hown
  omega

/-- **No chain of declaring types goes on forever**, nor in a circle. -/
theorem wellFounded_declaring (s : FactSet) : WellFounded fun outer facts => s.declaringFacts? facts = some outer := by
  refine Subrelation.wf (fun {outer facts} houter => ?_) (measure fun facts : TypeFacts => facts.reference.declaringLength).wf
  obtain ⟨key, hkey, hlength⟩ := declaringLength_of_declaringFacts? houter
  have hle := TypeRef.declaringLength_le hkey
  change outer.reference.declaringLength < facts.reference.declaringLength
  omega

end FactSet

/-! ## One resolver -/

namespace Extracting

variable {J : Closures → Prop} {m : Extracting α}

theorem preserves_pure (a : α) : Preserves J (pure a : Extracting α) := by
  intro known result hJ hrun
  cases hrun
  exact hJ

theorem preserves_throw (fault : ExtractionFault) : Preserves J (throw fault : Extracting α) := by
  intro known result hJ hrun
  cases hrun

theorem preserves_lift (x : Except ExtractionFault α) : Preserves J (liftM x : Extracting α) := by
  intro known result hJ hrun
  cases x with
  | error fault => cases hrun
  | ok a =>
    cases hrun
    exact hJ

theorem preserves_ofResolving {m : Resolving α} (hm : Resolving.Preserves J m) : Preserves J (ofResolving m) := by
  intro known result hJ hrun
  cases hrun
  exact hm known hJ

theorem Preserves.bind {f : α → Extracting β} (hm : Preserves J m) (hf : ∀ a, Preserves J (f a)) :
    Preserves J (m >>= f) := by
  intro known result hJ hrun
  obtain ⟨between, hfirst, hsecond⟩ := exists_of_run_bind hrun
  exact hf between.1 between.2 result (hm known between hJ hfirst) hsecond

theorem Preserves.mapM {f : α → Extracting β} (hf : ∀ a, Preserves J (f a)) (xs : List α) : Preserves J (xs.mapM f) := by
  induction xs with
  | nil => exact preserves_pure _
  | cons x rest ih =>
    rw [List.mapM_cons]
    exact (hf x).bind fun _ => ih.bind fun _ => preserves_pure _

end Extracting

namespace FactSet

open Extracting
open Resolving (alone)

variable {s : FactSet} {f : VisibilityFilter}

section

variable {J : Closures → Prop} (hJ : ∀ q : Query, Resolving.Preserves J (q.ask s (s.isVisible f)))
include hJ

theorem preserves_describeGeneric (context : String) (g : GenericFacts) : Preserves J (s.describeGeneric f context g) :=
  (preserves_lift _).bind fun _ => (preserves_ofResolving (hJ (.constraints g))).bind fun _ => preserves_pure _

theorem preserves_describeMember (owner : TypeKind) (context : String) (interfaces : List TypeRef) (k : MemberHandle)
    (m : MemberEntry) : Preserves J (s.describeMember f owner context interfaces k m) := by
  have hconstraints : Preserves J (s.describeConstraints f context m.generics) :=
    (Preserves.mapM (fun g => (preserves_describeGeneric hJ context g).bind fun _ => preserves_pure _) _).bind
      fun _ => preserves_pure _
  exact (preserves_lift _).bind fun _ => hconstraints.bind fun _ => preserves_pure _

theorem preserves_describeMembers (owner : TypeKind) (context : String) (interfaces : List TypeRef)
    (handles : List MemberHandle) : Preserves J (s.describeMembers f owner context interfaces handles) := by
  induction handles with
  | nil => exact preserves_pure _
  | cons k rest ih =>
    rw [describeMembers]
    cases s.member? k with
    | none => exact ih
    | some m =>
      dsimp only
      split
      · exact (preserves_describeMember hJ owner context interfaces k m).bind fun _ => ih.bind fun _ => preserves_pure _
      · exact ih

theorem preserves_describeType (h : TypeHandle) (entry : TypeEntry) (members : List MemberHandle) :
    Preserves J (s.describeType f h entry members) := by
  unfold describeType
  refine (preserves_lift _).bind fun _ => (preserves_ofResolving (hJ (.direct h))).bind fun interfaces => ?_
  refine (Preserves.mapM (fun g => (preserves_describeGeneric hJ _ g).bind fun _ => preserves_pure _) _).bind fun _ => ?_
  exact (preserves_describeMembers hJ _ _ interfaces members).bind fun _ => preserves_pure _

/-- **Extraction.** What all questions preserve, an extraction does. -/
theorem preserves_describeTypes (members : TypeHandle → List MemberHandle) (names : List String) (handles : List TypeHandle) :
    Preserves J (s.describeTypes f members names handles) := by
  induction handles generalizing names with
  | nil => exact preserves_pure _
  | cons h rest ih =>
    rw [describeTypes]
    cases s.entry? h with
    | none => exact preserves_throw _
    | some entry =>
      dsimp only
      split
      · refine (preserves_describeType hJ h entry _).bind fun t => ?_
        split
        · exact (preserves_throw _).bind fun _ => (ih _).bind fun _ => preserves_pure _
        · exact (ih _).bind fun _ => preserves_pure _
      · exact ih names

end

theorem keptAfter_concat (visible : TypeRef → Bool) (queries : List Query) (q : Query) :
    s.keptAfter visible (queries ++ [q]) = ((q.ask s visible).run (s.keptAfter visible queries)).run.2 := by
  unfold keptAfter
  rw [List.mapM_append, List.mapM_cons, List.mapM_nil]
  rfl

/-- an extraction keeps what a sequence of questions does -/
theorem exists_queries {members : TypeHandle → List MemberHandle} {handles : List TypeHandle}
    {result : List TypeDescriptor × Closures} (hrun : (s.describeTypes f members [] handles).run [] = .ok result) :
    ∃ queries, result.2 = s.keptAfter (s.isVisible f) queries := by
  have hquery : ∀ q : Query, Resolving.Preserves (fun known => ∃ queries, known = s.keptAfter (s.isVisible f) queries)
      (q.ask s (s.isVisible f)) := by
    rintro q _ ⟨queries, rfl⟩
    exact ⟨queries ++ [q], (keptAfter_concat _ queries q).symm⟩
  exact preserves_describeTypes hquery members [] handles [] result ⟨[], rfl⟩ hrun

/-! ## Malformed hierarchies -/

/-- **Malformed hierarchies neither hang an extraction nor invent interfaces.** Whatever the set: a resolver ends every task and
begins each definition at most once, over all questions of an extraction; a search for slots ends and visits each type at most
once; whether a type is exported is asked of types with shorter keys only; and all interfaces of a reference are reached from it,
whatever was asked before. -/
theorem extraction_ends (s : FactSet) :
    (∀ task known, ∃ begun,
      s.Runs task known ((task.ask s).run known).run.1 ((task.ask s).run known).run.2 begun ∧
        s.Opens known ((task.ask s).run known).run.2 begun) ∧
    (∀ visible queries, s.Tidy (s.keptAfter visible queries)) ∧
    (∀ (f : VisibilityFilter) (roster : Roster) (result : List TypeDescriptor × Closures),
      (s.describeTypes f roster.members [] roster.types).run [] = .ok result →
        ∃ queries, result.2 = s.keptAfter (s.isVisible f) queries) ∧
    (∀ h i, ∃ trace, s.Climbs i.canonicalName [] h [] (s.interfaceMap h i) trace ∧ trace.Nodup) ∧
    (∀ f facts, s.isExported f facts = (f.keeps facts.visibility && (s.declaringFacts? facts).all (s.isExported f))) ∧
    (WellFounded fun outer facts => s.declaringFacts? facts = some outer) ∧
    (∀ facts outer, s.declaringFacts? facts = some outer → ∃ key, outer.reference.definitionKey? = some key ∧
      ∀ own, facts.reference.definitionKey? = some own → key.length < own.length) ∧
    ∀ visible queries r, ∀ i ∈ ((s.allInterfaces r).run (s.keptAfter visible queries)).run.1, s.Reaches r i := by
  refine ⟨fun task known => ?_, ?_, fun _ _ _ => exists_queries, fun h i => ?_, s.isExported_eq, s.wellFounded_declaring,
    fun _ _ => shorter_of_declaringFacts?, fun visible queries r i => reaches_of_mem_allInterfaces visible queries r⟩
  · obtain ⟨begun, hrun⟩ := s.exists_runs task known
    exact ⟨begun, hrun, hrun.opens⟩
  · exact fun visible queries => keptAfter_of_preserves preserves_tidy visible s.tidy_nil queries
  · obtain ⟨trace, htrace⟩ := s.exists_climbs h i
    exact ⟨trace, htrace, htrace.nodup.1⟩

/-- interfaces that extend each other, a class with a base type that grows on every turn, and a type nested in an unknown one -/
def tangle : FactSet where
  identity := "Shapes"
  entries := [
    bareType .interfaceType .pub (.topLevel "" "IShape") [.topLevel "" "IFigure"],
    bareType .interfaceType .pub (.topLevel "" "IFigure") [.topLevel "" "IShape", .topLevel "" "INowhere"],
    { facts := ⟨interfaceOf "Nest" typeT, .pub, .classType, false, false,
        some (interfaceOf "Nest" (interfaceOf "Nest" typeT)), []⟩
      generics := []
      members := []
      isDependency := false },
    bareType .classType .pub (.named none "Part" (some (.topLevel "" "Part")) []) [.topLevel "" "IFigure"]]

/-- in the tangle, the shape reaches itself and nothing that no one declares, and the search for slots visits the nest once -/
theorem extraction_ends_tangle :
    alone (tangle.allInterfaces (.topLevel "" "IShape")) =
        [.topLevel "" "IFigure", .topLevel "" "IShape", .topLevel "" "INowhere"] ∧
      (∀ i ∈ alone (tangle.allInterfaces (.topLevel "" "IShape")), tangle.Reaches (.topLevel "" "IShape") i) ∧
      ∃ trace, tangle.Climbs "IShape" [] ⟨2⟩ [] [] trace ∧ trace.Nodup := by
  obtain ⟨-, -, -, hslots, -, -, -, hreaches⟩ := extraction_ends tangle
  exact ⟨by decide, hreaches (fun _ => true) [] _, hslots ⟨2⟩ (.topLevel "" "IShape")⟩

end FactSet

end ApiSurface
