/-
What counts up in a set, and checked computations that follow.

A reference counts up when no sum in it overflows. Putting arguments that count up in for its parameters leaves that, since
the levels of a type and its declaring types stay as they are. So where all that a set states counts up, all that is kept and
answered about interfaces does, and checked questions get the answers that the other ones get.

`Follows`: a checked computation ends as the other one does.
`follows_closure`, `follows_directInterfaces`, `follows_constraintSet`: the questions of an extraction do.
-/
import ApiSurface.Proofs.Extraction.Checked
import ApiSurface.Proofs.Facts.Growth
import ApiSurface.Proofs.Interfaces.Brought

namespace ApiSurface

open TypeRef (CountsUp AllCount checkedName checkedName_eq)

/-! ## References in facts -/

theorem TypeEntry.mem_references_of_member {entry : TypeEntry} {m : MemberEntry} {r : TypeRef} (hm : m ∈ entry.members)
    (hr : r ∈ m.references) : r ∈ entry.references :=
  List.mem_append_right _ (List.mem_flatMap.2 ⟨m, hm, hr⟩)

namespace FactSet

/-- the reference is stated by a type, or stands in one that is, however deep -/
def Occurs (s : FactSet) (q : TypeRef) : Prop :=
  ∃ entry ∈ s.entries, ∃ r ∈ entry.references, q.Occurs r

/-- all that types state counts up -/
def CountsUp (s : FactSet) : Prop := ∀ entry ∈ s.entries, AllCount entry.references

theorem countsUp_of_occurs {s : FactSet} (h : ∀ q, s.Occurs q → q.countedSum < UInt64.size) : s.CountsUp :=
  fun entry hentry r hr => .of_forall_occurs fun q hq => h q ⟨entry, hentry, r, hr, hq⟩

section

variable {s : FactSet} (hs : s.CountsUp) {h : TypeHandle} {facts : TypeFacts} {entry : TypeEntry}
include hs

theorem CountsUp.of_occurs {q : TypeRef} (hq : s.Occurs q) : q.CountsUp := by
  obtain ⟨entry, hentry, r, hr, hoccurs⟩ := hq
  exact (hs entry hentry r hr).of_occurs hoccurs

theorem CountsUp.of_entry? (hentry : s.entry? h = some entry) : AllCount entry.references :=
  hs entry (List.mem_of_getElem? hentry)

theorem CountsUp.of_super (hfacts : s.facts? h = some facts) {r : TypeRef} (hr : r ∈ facts.interfaces ∨ r ∈ facts.baseType) :
    r.CountsUp := by
  obtain ⟨entry, hentry, rfl⟩ := Option.map_eq_some_iff.1 hfacts
  refine hs.of_entry? hentry r ?_
  rcases hr with hr | hr
  · simp [TypeEntry.references, hr]
  · simp [TypeEntry.references, Option.mem_def.1 hr]

theorem CountsUp.declaredInterfaces {r : TypeRef} (hr : r.CountsUp) : AllCount (s.declaredInterfaces r) := by
  intro i hi
  unfold FactSet.declaredInterfaces at hi
  cases hfacts : s.definition? r with
  | none =>
    rw [hfacts] at hi
    cases hi
  | some facts =>
    rw [hfacts] at hi
    obtain ⟨j, hj, rfl⟩ := List.mem_map.1 hi
    obtain ⟨k, -, hk⟩ := Option.bind_eq_some_iff.1 hfacts
    exact (hs.of_super hk (Or.inl hj)).substitute fun a ha => hr.withoutByRef.of_argument ha

end

end FactSet

namespace Checked

variable {α β : Type} {rs : List TypeRef}

/-! ## Lists of references -/

theorem mapM_eq {f : α → Option β} {g : α → β} {xs : List α} (h : ∀ x ∈ xs, f x = some (g x)) :
    xs.mapM f = some (xs.map g) := by
  induction xs with
  | nil => rfl
  | cons x rest ih =>
    obtain ⟨hx, hrest⟩ := List.forall_mem_cons.1 h
    rw [List.mapM_cons, hx, ih hrest]
    rfl

theorem keep_eq {keeps : α → Option Bool} {p : α → Bool} {xs : List α} (h : ∀ x ∈ xs, keeps x = some (p x)) :
    keep keeps xs = some (xs.filter p) := by
  induction xs with
  | nil => rfl
  | cons x rest ih =>
    obtain ⟨hx, hrest⟩ := List.forall_mem_cons.1 h
    rw [keep, hx, ih hrest, List.filter_cons]
    rfl

theorem names_eq (h : AllCount rs) : names rs = some (rs.map TypeRef.canonicalName) :=
  mapM_eq fun r hr => checkedName_eq (h r hr)

theorem name?_eq {r : Option TypeRef} (h : ∀ q ∈ r, CountsUp q) : name? r = some (r.map TypeRef.canonicalName) := by
  cases r with
  | none => rfl
  | some q => exact congrArg (Option.map some) (checkedName_eq (h q rfl))

theorem distinctAfter_eq (seen : List String) (h : AllCount rs) :
    distinctAfter seen rs = some (TypeRef.distinctAfter seen rs) := by
  induction rs generalizing seen with
  | nil => rfl
  | cons r rest ih =>
    obtain ⟨hr, hrest⟩ := List.forall_mem_cons.1 h
    rw [distinctAfter, checkedName_eq hr, TypeRef.distinctAfter]
    change (if seen.contains r.canonicalName then _ else _) = _
    split
    · exact ih seen hrest
    · rw [ih _ hrest]
      rfl

theorem distinct_eq (h : AllCount rs) : distinct rs = some (TypeRef.distinct rs) := distinctAfter_eq [] h

theorem withoutImplied_eq {reach : List (List TypeRef)} (h : AllCount rs)
    (hreach : ∀ list ∈ reach, AllCount list) : withoutImplied rs reach = some (FactSet.withoutImplied rs reach) := by
  have hnames : reach.mapM names = some (reach.map fun list => list.map TypeRef.canonicalName) :=
    mapM_eq fun list hlist => names_eq (hreach list hlist)
  unfold withoutImplied
  rw [names_eq h, hnames]
  refine keep_eq fun r hr => ?_
  rw [checkedName_eq (h r hr)]
  rfl

/-! ## Slots -/

section

variable {s : FactSet} (hs : s.CountsUp)

theorem implements_eq {arguments : List TypeRef} (name : String) {m : MemberEntry} (hm : AllCount m.references)
    (harguments : AllCount arguments) : implements arguments name m.facts =
      some ((m.facts.explicitInterface.toList ++ m.facts.implements).any fun i =>
        (i.substitute arguments).canonicalName == name) := by
  have hcounts : AllCount ((m.facts.explicitInterface.toList ++ m.facts.implements).map (TypeRef.substitute arguments)) := by
    intro r hr
    obtain ⟨i, hi, rfl⟩ := List.mem_map.1 hr
    refine CountsUp.substitute (hm i ?_) harguments
    rcases List.mem_append.1 hi with hi | hi
    · simp [MemberEntry.references, Option.mem_toList.1 hi]
    · simp [MemberEntry.references, hi]
  rw [implements, names_eq hcounts]
  simp only [bind, Option.bind_some, pure, List.any_map]
  rfl

theorem ownSlots_eq (h : TypeHandle) {entry : TypeEntry} {arguments : List TypeRef} (name : String)
    (hentry : AllCount entry.references) (harguments : AllCount arguments) :
    ownSlots h entry arguments name = some (FactSet.ownSlots h entry arguments name) := by
  unfold ownSlots FactSet.ownSlots
  rw [mapM_eq (g := fun x : MemberEntry × Nat =>
    if (x.1.facts.explicitInterface.toList ++ x.1.facts.implements).any fun i =>
        (i.substitute arguments).canonicalName == name then
      some (⟨x.1.facts.name, ⟨h, x.2⟩⟩ : InterfaceSlot)
    else none)]
  · exact congrArg some List.filterMap_map
  · intro x hx
    have hmember : x.1 ∈ entry.members := (List.mem_zipIdx hx).2.2 ▸ List.getElem_mem _
    dsimp only
    rw [implements_eq name (fun r hr => hentry r (TypeEntry.mem_references_of_member hmember hr)) harguments]
    rfl

include hs

theorem slotsFrom_eq (name : String) (steps : Nat) {visited : List TypeHandle} {h : TypeHandle} {arguments : List TypeRef}
    (harguments : AllCount arguments) :
    slotsFrom s name steps visited h arguments = some (s.slotsFrom name steps visited h arguments) := by
  induction steps generalizing visited h arguments with
  | zero => rfl
  | succ steps ih =>
    rw [slotsFrom, FactSet.slotsFrom]
    split
    · rfl
    · cases hentry : s.entry? h with
      | none => rfl
      | some entry =>
        dsimp only
        rw [ownSlots_eq h name (hs.of_entry? hentry) harguments]
        simp only [bind, Option.bind_some]
        cases FactSet.ownSlots h entry arguments name with
        | cons slot rest => rfl
        | nil =>
          dsimp only
          cases hbase : entry.facts.baseType with
          | none => rfl
          | some base =>
            dsimp only
            cases s.resolve (base.substitute arguments) with
            | none => rfl
            | some next =>
              have hfacts : s.facts? h = some entry.facts := by rw [FactSet.facts?, hentry, Option.map_some]
              have hcounts : (base.substitute arguments).CountsUp :=
                (hs.of_super hfacts (Or.inr hbase)).substitute harguments
              exact ih fun a ha => hcounts.of_argument ha

theorem interfaceMap_eq (h : TypeHandle) {i : TypeRef} (hi : i.CountsUp) : interfaceMap s h i = some (s.interfaceMap h i) := by
  rw [interfaceMap, checkedName_eq hi]
  exact slotsFrom_eq hs _ _ (List.forall_mem_nil _)

theorem implementedInterface_eq {interfaces : List TypeRef} (hinterfaces : AllCount interfaces) (h : MemberHandle) :
    implementedInterface s interfaces h = some (s.implementedInterface interfaces h) := by
  have hkeep : keep (fun i => do
      let slots ← interfaceMap s h.owner i
      return slots.any fun slot => slot.implementation == h) interfaces =
      some (interfaces.filter fun i => (s.interfaceMap h.owner i).any fun slot => slot.implementation == h) := by
    refine keep_eq fun i hi => ?_
    rw [interfaceMap_eq hs h.owner (hinterfaces i hi)]
    rfl
  unfold implementedInterface
  rw [hkeep]
  exact congrArg some List.head?_filter

theorem implementedName_eq {interfaces : List TypeRef} (hinterfaces : AllCount interfaces) (h : MemberHandle)
    (m : MemberFacts) : implementedName s interfaces h m =
      some (if m.explicitInterface.isSome then none
        else (s.implementedInterface interfaces h).map TypeRef.canonicalName) := by
  unfold implementedName
  split
  · rfl
  · rw [implementedInterface_eq hs hinterfaces]
    exact name?_eq fun i hi => hinterfaces i (List.mem_of_find?_eq_some hi)

end

end Checked

/-! ## Checked computations -/

namespace Checking

variable {α β : Type} {m : Checking α} {m' : Extracting α} {P : α → Prop} {Q : β → Prop}

/-- what is kept counts up -/
def ListsCount (known : Closures) : Prop := ∀ entry ∈ known, AllCount entry.2

/-- where what is kept counts up, the checked computation ends as the other one does; then that counts up which is kept
afterwards, and the result has a property -/
def Follows (m : Checking α) (m' : Extracting α) (P : α → Prop) : Prop :=
  ∀ known, ListsCount known → ExceptT.run (m.run known) = some (m'.run known) ∧
    ∀ result, m'.run known = .ok result → ListsCount result.2 ∧ P result.1

theorem follows_pure {a : α} (h : P a) : Follows (pure a) (pure a) P := by
  intro known hknown
  refine ⟨rfl, fun result hrun => ?_⟩
  cases hrun
  exact ⟨hknown, h⟩

theorem follows_throw (fault : ExtractionFault) : Follows (throw fault) (throw fault) P := by
  intro known _
  refine ⟨rfl, fun result hrun => ?_⟩
  cases hrun

theorem follows_lift (x : Except ExtractionFault α) : Follows (liftM x) (liftM x) fun _ => True := by
  intro known hknown
  cases x with
  | error fault => exact ⟨rfl, fun result hrun => by cases hrun⟩
  | ok a =>
    refine ⟨rfl, fun result hrun => ?_⟩
    cases hrun
    exact ⟨hknown, trivial⟩

/-- a name or an arity that did not overflow -/
theorem follows_option {o : Option α} {a : α} (ho : o = some a) (h : P a) : Follows (liftM o) (pure a) P := by
  subst ho
  exact follows_pure h

theorem Follows.bind {f : α → Checking β} {f' : α → Extracting β} (hm : Follows m m' P)
    (hf : ∀ a, P a → Follows (f a) (f' a) Q) : Follows (m >>= f) (m' >>= f') Q := by
  intro known hknown
  obtain ⟨hrun, hresult⟩ := hm known hknown
  rw [StateT.run_bind, ExceptT.run_bind, hrun, StateT.run_bind]
  cases hm' : m'.run known with
  | error fault => exact ⟨rfl, fun result hrun => by cases hrun⟩
  | ok result =>
    obtain ⟨hcount, hP⟩ := hresult result hm'
    exact hf result.1 hP result.2 hcount

/-- what was looked at first did not overflow -/
theorem Follows.after {o : Option α} {a : α} {f : α → Checking β} {m' : Extracting β} (ho : o = some a)
    (h : Follows (f a) m' Q) : Follows (liftM o >>= f) m' Q := by
  subst ho
  exact h

theorem Follows.mapM {f : α → Checking β} {f' : α → Extracting β} {xs : List α}
    (h : ∀ x ∈ xs, Follows (f x) (f' x) Q) : Follows (xs.mapM f) (xs.mapM f') fun ys => ∀ y ∈ ys, Q y := by
  induction xs with
  | nil => exact follows_pure (List.forall_mem_nil _)
  | cons x rest ih =>
    obtain ⟨hx, hrest⟩ := List.forall_mem_cons.1 h
    rw [List.mapM_cons, List.mapM_cons]
    exact hx.bind fun y hy => (ih hrest).bind fun ys hys => follows_pure (List.forall_mem_cons.2 ⟨hy, hys⟩)

/-! ## Resolving -/

section

variable {m : Checking α} {m' : Resolving α}

theorem follows_resolved {a : α} (h : P a) : Follows (pure a) (Extracting.ofResolving (pure a)) P := follows_pure h

theorem follows_resolved_option {o : Option α} {a : α} (ho : o = some a) (h : P a) :
    Follows (liftM o) (Extracting.ofResolving (pure a)) P := follows_option ho h

theorem Follows.resolve {f : α → Checking β} {f' : α → Resolving β} (hm : Follows m (Extracting.ofResolving m') P)
    (hf : ∀ a, P a → Follows (f a) (Extracting.ofResolving (f' a)) Q) :
    Follows (m >>= f) (Extracting.ofResolving (m' >>= f')) Q :=
  hm.bind hf

theorem Follows.resolveAll {f : α → Checking β} {f' : α → Resolving β} {xs : List α}
    (h : ∀ x ∈ xs, Follows (f x) (Extracting.ofResolving (f' x)) Q) :
    Follows (xs.mapM f) (Extracting.ofResolving (xs.mapM f')) fun ys => ∀ y ∈ ys, Q y := by
  induction xs with
  | nil => exact follows_resolved (List.forall_mem_nil _)
  | cons x rest ih =>
    obtain ⟨hx, hrest⟩ := List.forall_mem_cons.1 h
    rw [List.mapM_cons, List.mapM_cons]
    exact hx.resolve fun y hy => (ih hrest).resolve fun ys hys => follows_resolved (List.forall_mem_cons.2 ⟨hy, hys⟩)

theorem follows_get : Follows get (Extracting.ofResolving get) ListsCount := by
  intro known hknown
  refine ⟨rfl, fun result hrun => ?_⟩
  cases hrun
  exact ⟨hknown, hknown⟩

theorem follows_modify {g : Closures → Closures} (hg : ∀ known, ListsCount known → ListsCount (g known)) :
    Follows (modify g) (Extracting.ofResolving (modify g)) fun _ => True := by
  intro known hknown
  refine ⟨rfl, fun result hrun => ?_⟩
  cases hrun
  exact ⟨hg known hknown, trivial⟩

end

end Checking

namespace Checked

open Checking

variable {s : FactSet} {visible : TypeRef → Bool} {closure : TypeHandle → Checking (List TypeRef)}
  {closure' : TypeHandle → Resolving (List TypeRef)}

theorem follows_interfacesVia (hclosure : ∀ h, Follows (closure h) (Extracting.ofResolving (closure' h)) AllCount)
    {r : TypeRef} (hr : r.CountsUp) :
    Follows (interfacesVia s closure r) (Extracting.ofResolving (s.interfacesVia closure' r)) AllCount := by
  unfold interfacesVia FactSet.interfacesVia
  cases s.resolve r with
  | none => exact follows_resolved (List.forall_mem_nil _)
  | some h =>
    refine (hclosure h).resolve fun interfaces hinterfaces => follows_resolved fun i hi => ?_
    obtain ⟨j, hj, rfl⟩ := List.mem_map.1 hi
    exact (hinterfaces j hj).substitute fun a ha => hr.withoutByRef.of_argument ha

theorem follows_declared (hclosure : ∀ h, Follows (closure h) (Extracting.ofResolving (closure' h)) AllCount)
    {interfaces : List TypeRef} (hinterfaces : AllCount interfaces) :
    Follows
      (interfaces.mapM fun i => do
        let extended ← interfacesVia s closure i
        return i :: extended)
      (Extracting.ofResolving (interfaces.mapM fun i => do
        let extended ← s.interfacesVia closure' i
        return i :: extended))
      fun lists => ∀ list ∈ lists, AllCount list := by
  refine Follows.resolveAll fun i hi => ?_
  exact (follows_interfacesVia hclosure (hinterfaces i hi)).resolve fun extended hextended =>
    follows_resolved (List.forall_mem_cons.2 ⟨hinterfaces i hi, hextended⟩)

theorem follows_gathered (h : TypeHandle) {declared : List (List TypeRef)} {inherited : List TypeRef}
    (hdeclared : ∀ list ∈ declared, AllCount list) (hinherited : AllCount inherited) :
    Follows
      (do
        let result ← distinct (declared.flatten ++ inherited)
        modify fun known => (h, result) :: known
        return result)
      (Extracting.ofResolving do
        let result := TypeRef.distinct (declared.flatten ++ inherited)
        modify fun known => (h, result) :: known
        return result) AllCount := by
  have hall : AllCount (declared.flatten ++ inherited) := by
    intro r hr
    rcases List.mem_append.1 hr with hr | hr
    · obtain ⟨list, hlist, hr⟩ := List.mem_flatten.1 hr
      exact hdeclared list hlist r hr
    · exact hinherited r hr
  have hresult : AllCount (TypeRef.distinct (declared.flatten ++ inherited)) := fun r hr =>
    hall r (FactSet.mem_of_mem_distinctAfter hr)
  refine Follows.after (distinct_eq hall) ?_
  refine (follows_modify fun known hknown => ?_).resolve fun _ _ => follows_resolved hresult
  exact List.forall_mem_cons.2 ⟨hresult, hknown⟩

section

variable (hs : s.CountsUp)
include hs

theorem follows_closureWithin (depth : Nat) (h : TypeHandle) :
    Follows (closureWithin s depth h) (Extracting.ofResolving (s.closureWithin depth h)) AllCount := by
  -- on the depth; that what is kept counts up, the empty list of a definition that is begun included, goes from step to step
  induction depth generalizing h with
  | zero => exact follows_resolved (List.forall_mem_nil _)
  | succ depth ih =>
    rw [closureWithin, FactSet.closureWithin]
    refine follows_get.resolve fun known hknown => ?_
    cases hlist : known.lookup h with
    | some list =>
      obtain ⟨before, after, hsplit, -⟩ := List.lookup_eq_some_iff.1 hlist
      refine follows_resolved (hknown (h, list) ?_)
      rw [hsplit]
      exact List.mem_append_right _ List.mem_cons_self
    | none =>
      refine (follows_modify fun known hknown => ?_).resolve fun _ _ => ?_
      · exact List.forall_mem_cons.2 ⟨List.forall_mem_nil _, hknown⟩
      · cases hfacts : s.facts? h with
        | none => exact follows_resolved (List.forall_mem_nil _)
        | some facts =>
          dsimp only
          have hinterfaces : AllCount facts.interfaces := fun i hi => hs.of_super hfacts (Or.inl hi)
          refine (follows_declared ih hinterfaces).resolve fun declared hdeclared => ?_
          cases hbase : facts.baseType with
          | none =>
            cases facts.kind <;>
              exact (follows_resolved (List.forall_mem_nil _)).resolve fun _ => follows_gathered h hdeclared
          | some base =>
            have hcounts : base.CountsUp := hs.of_super hfacts (Or.inr hbase)
            cases facts.kind with
            | interfaceType =>
              exact (follows_resolved (List.forall_mem_nil _)).resolve fun _ => follows_gathered h hdeclared
            | _ => exact (follows_interfacesVia ih hcounts).resolve fun _ => follows_gathered h hdeclared

theorem follows_closure (h : TypeHandle) :
    Follows (Checked.closure s h) (Extracting.ofResolving (s.closure h)) AllCount := follows_closureWithin hs _ h

theorem follows_allInterfaces {r : TypeRef} (hr : r.CountsUp) :
    Follows (allInterfaces s r) (Extracting.ofResolving (s.allInterfaces r)) AllCount :=
  follows_interfacesVia (follows_closure hs) hr

/-! ## Questions of an extraction -/

/-- what an interface records -/
theorem follows_reach {all : List TypeRef} (hall : AllCount all) :
    Follows
      (do
        let reach ← all.mapM (allInterfaces s)
        withoutImplied all reach)
      (Extracting.ofResolving do
        let reach ← all.mapM s.allInterfaces
        return FactSet.withoutImplied all reach) AllCount := by
  refine (Follows.resolveAll fun i hi => follows_allInterfaces hs (hall i hi)).resolve fun reach hreach => ?_
  exact follows_resolved_option (withoutImplied_eq hall hreach) fun r hr => hall r (List.mem_of_mem_filter hr)

/-- what any other type records -/
theorem follows_anew (h : TypeHandle) {all inherited : List TypeRef} (hall : AllCount all) (hinherited : AllCount inherited) :
    Follows
      (do
        let names ← Checked.names inherited
        keep (fun i => do
          let name ← checkedName i
          let slots ← interfaceMap s h i
          return !names.contains name || slots.any fun slot => slot.implementation.owner == h) all)
      (Extracting.ofResolving do
        let names := inherited.map TypeRef.canonicalName
        return all.filter fun i => !names.contains i.canonicalName ||
          (s.interfaceMap h i).any fun slot => slot.implementation.owner == h) AllCount := by
  refine Follows.after (names_eq hinherited) (follows_resolved_option (keep_eq fun i hi => ?_) fun i hi => ?_)
  · rw [checkedName_eq (hall i hi), interfaceMap_eq hs h (hall i hi)]
    rfl
  · exact hall i (List.mem_of_mem_filter hi)

theorem follows_directInterfaces (visible : TypeRef → Bool) (h : TypeHandle) :
    Follows (directInterfaces s visible h) (Extracting.ofResolving (s.directInterfaces visible h)) AllCount := by
  unfold directInterfaces FactSet.directInterfaces
  cases hfacts : s.facts? h with
  | none => exact follows_resolved (List.forall_mem_nil _)
  | some facts =>
    dsimp only
    refine (follows_closure hs h).resolve fun closure hclosure => ?_
    have hall : AllCount (closure.filter visible) := fun i hi => hclosure i (List.mem_of_mem_filter hi)
    cases hbase : facts.baseType with
    | none =>
      cases facts.kind with
      | interfaceType => exact follows_reach hs hall
      | _ => exact (follows_resolved (List.forall_mem_nil _)).resolve fun _ => follows_anew hs h hall
    | some base =>
      have hcounts : base.CountsUp := hs.of_super hfacts (Or.inr hbase)
      cases facts.kind with
      | interfaceType => exact follows_reach hs hall
      | _ => exact (follows_allInterfaces hs hcounts).resolve fun _ => follows_anew hs h hall

theorem follows_partConstraints (visible : TypeRef → Bool) (valueType : Bool) {bound : Option TypeRef}
    {constraints : List TypeRef} (hbound : ∀ r ∈ bound, CountsUp r) (hconstraints : AllCount constraints) :
    Follows (partConstraints s visible valueType bound constraints)
      (Extracting.ofResolving (s.partConstraints visible valueType bound constraints))
      fun parts => (∀ r ∈ parts.1, CountsUp r) ∧ AllCount parts.2 := by
  induction constraints generalizing bound with
  | nil => exact follows_resolved ⟨hbound, List.forall_mem_nil _⟩
  | cons c rest ih =>
    obtain ⟨hc, hrest⟩ := List.forall_mem_cons.1 hconstraints
    rw [partConstraints, FactSet.partConstraints]
    refine Follows.after (checkedName_eq hc) ?_
    split
    · exact ih hbound hrest
    · split
      · exact ih (fun r hr => Option.mem_some.1 hr ▸ hc) hrest
      · have hothers : ∀ shown, AllCount shown → Follows
            (do
              let parts ← partConstraints s visible valueType bound rest
              return (parts.1, shown ++ parts.2))
            (Extracting.ofResolving do
              let parts ← s.partConstraints visible valueType bound rest
              return (parts.1, shown ++ parts.2))
            fun parts => (∀ r ∈ parts.1, CountsUp r) ∧ AllCount parts.2 := fun shown hshown =>
          (ih hbound hrest).resolve fun parts hparts =>
            follows_resolved ⟨hparts.1, List.forall_mem_append.2 ⟨hshown, hparts.2⟩⟩
        split
        · exact (follows_resolved (List.forall_mem_singleton.2 hc)).resolve hothers
        · refine Follows.resolve ?_ hothers
          exact (follows_allInterfaces hs hc).resolve fun interfaces hinterfaces =>
            follows_resolved fun i hi => hinterfaces i (List.mem_of_mem_filter hi)

/-- what a generic parameter records besides a class bound -/
theorem follows_stated (bound : Option TypeRef) {interfaces inherited : List TypeRef} (hbound : ∀ r ∈ bound, CountsUp r)
    (hinterfaces : AllCount interfaces) (hinherited : AllCount inherited) :
    Follows
      (do
        let names ← Checked.names inherited
        let stated ← withoutImplied interfaces (interfaces.map s.declaredInterfaces)
        let kept ← keep (fun i => do
          let name ← checkedName i
          return !names.contains name) stated
        return bound.toList ++ kept)
      (Extracting.ofResolving do
        let names := inherited.map TypeRef.canonicalName
        let kept := (FactSet.withoutImplied interfaces (interfaces.map s.declaredInterfaces)).filter fun i =>
          !names.contains i.canonicalName
        return bound.toList ++ kept) AllCount := by
  have hreach : ∀ list ∈ interfaces.map s.declaredInterfaces, AllCount list := by
    intro list hlist
    obtain ⟨i, hi, rfl⟩ := List.mem_map.1 hlist
    exact hs.declaredInterfaces (hinterfaces i hi)
  have hstated : AllCount (FactSet.withoutImplied interfaces (interfaces.map s.declaredInterfaces)) := fun i hi =>
    hinterfaces i (List.mem_of_mem_filter hi)
  refine Follows.after (names_eq hinherited) (Follows.after (withoutImplied_eq hinterfaces hreach) ?_)
  refine Follows.after (keep_eq fun i hi => ?_) (follows_resolved (List.forall_mem_append.2 ⟨?_, ?_⟩))
  · rw [checkedName_eq (hstated i hi)]
    rfl
  · exact fun r hr => hbound r (Option.mem_toList.1 hr)
  · exact fun i hi => hstated i (List.mem_of_mem_filter hi)

theorem follows_constraintSet (visible : TypeRef → Bool) {g : GenericFacts} (hg : AllCount g.constraints) :
    Follows (constraintSet s visible g) (Extracting.ofResolving (s.constraintSet visible g)) AllCount := by
  unfold constraintSet FactSet.constraintSet
  refine (follows_partConstraints hs visible _ (fun r hr => by cases hr) hg).resolve ?_
  rintro ⟨bound, all⟩ ⟨hbound, hall⟩
  dsimp only
  have hinterfaces : AllCount (TypeRef.distinct all) := fun r hr => hall r (FactSet.mem_of_mem_distinctAfter hr)
  refine Follows.after (distinct_eq hall) ?_
  cases bound with
  | none => exact (follows_resolved (List.forall_mem_nil _)).resolve fun _ => follows_stated hs none hbound hinterfaces
  | some base =>
    exact (follows_allInterfaces hs (hbound base rfl)).resolve fun _ => follows_stated hs (some base) hbound hinterfaces

end

end Checked

end ApiSurface
