/-
Keeping interface lists changes no answer.

While the interfaces of a definition are computed, an empty list stands for them. On an acyclic graph nobody reads it: what
a definition leads to never leads back to it. So a computation may rely on the definitions that it can reach, and leaves
right what was right before.

`answers_closureWithin`: the kept computation gives what plain recursion gives.
`steady_directInterfaces`, `steady_constraintSet`: what is asked of a resolver has one answer, whatever was asked before.
`answers_transparent`: so a sequence of queries is answered query by query.
-/
import ApiSurface.Interfaces.Direct
import ApiSurface.Proofs.Interfaces.Lineage

namespace ApiSurface

variable {α β : Type} {s : FactSet} (hs : s.Acyclic)

/-! ## Answers -/

/-- what is kept of a definition, if anything, is what plain recursion gives -/
def Closures.Right (known : Closures) (h : TypeHandle) : Prop :=
  ∀ list, known.lookup h = some list → list = s.lineage hs h

variable {hs} in
/-- keeping a list concerns the one definition -/
theorem Closures.right_cons {known : Closures} {h k : TypeHandle} {list : List TypeRef}
    (hlist : k = h → list = s.lineage hs k) (hknown : k ≠ h → known.Right hs k) :
    Closures.Right hs ((h, list) :: known) k := by
  intro list' hlookup
  rw [List.lookup_cons] at hlookup
  split at hlookup
  · next heq => exact (Option.some.inj hlookup).symm.trans (hlist (eq_of_beq heq))
  · next hne => exact hknown (by simpa using hne) list' hlookup

namespace Resolving

/-- wherever the lists of some definitions are right, the computation gives the answer and leaves right what was right -/
def Answers (on : TypeHandle → Prop) (m : Resolving α) (a : α) : Prop :=
  ∀ known : Closures, (∀ h, on h → known.Right hs h) →
    ∃ known' : Closures, m.run known = pure (a, known') ∧ ∀ h, known.Right hs h → known'.Right hs h

variable {hs} {on : TypeHandle → Prop} {m : Resolving α} {f : α → Resolving β} {a : α} {b : β}

theorem answers_pure (a : α) : Answers hs on (pure a) a := fun known _ => ⟨known, rfl, fun _ hh => hh⟩

theorem Answers.bind (hm : Answers hs on m a) (hf : Answers hs on (f a) b) : Answers hs on (m >>= f) b := by
  intro known hknown
  obtain ⟨between, hrun, hkeep⟩ := hm known hknown
  obtain ⟨known', hrun', hkeep'⟩ := hf between fun h hh => hkeep h (hknown h hh)
  refine ⟨known', ?_, fun h hh => hkeep' h (hkeep h hh)⟩
  rw [StateT.run_bind, hrun, pure_bind, hrun']

theorem Answers.map (hm : Answers hs on m a) (g : α → β) : Answers hs on (g <$> m) (g a) := by
  rw [map_eq_pure_bind]
  exact hm.bind (answers_pure _)

theorem Answers.mapM {g : α → Resolving β} {values : α → β} {xs : List α}
    (h : ∀ x ∈ xs, Answers hs on (g x) (values x)) : Answers hs on (xs.mapM g) (xs.map values) := by
  induction xs with
  | nil => exact answers_pure _
  | cons x rest ih =>
    rw [List.mapM_cons, List.map_cons]
    refine (h x List.mem_cons_self).bind ?_
    exact (ih fun y hy => h y (List.mem_cons_of_mem _ hy)).bind (answers_pure _)

/-- more definitions may be right -/
theorem Answers.mono {on' : TypeHandle → Prop} (hm : Answers hs on m a) (hon : ∀ h, on h → on' h) :
    Answers hs on' m a :=
  fun known hknown => hm known fun h hh => hknown h (hon h hh)

end Resolving

open Resolving

namespace FactSet

variable {hs} {on : TypeHandle → Prop} {closure : TypeHandle → Resolving (List TypeRef)} {h : TypeHandle}
  {facts : TypeFacts}

/-! ## Closures -/

theorem answers_interfacesVia {r : TypeRef}
    (hclosure : ∀ k, s.resolve r = some k → Answers hs on (closure k) (s.lineage hs k)) :
    Answers hs on (s.interfacesVia closure r) (s.via (s.lineage hs) r) := by
  unfold interfacesVia via
  cases hr : s.resolve r with
  | none => exact answers_pure _
  | some k => exact (hclosure k hr).bind (answers_pure _)

/-- what a definition gathers, given how to compute the lists of others -/
def gatherWith (s : FactSet) (closure : TypeHandle → Resolving (List TypeRef)) (facts : TypeFacts) :
    Resolving (List TypeRef) := do
  let declared ← facts.interfaces.mapM fun i => do
    let extended ← s.interfacesVia closure i
    return i :: extended
  let inherited ← facts.parent?.elim (pure []) (s.interfacesVia closure)
  return TypeRef.distinct (declared.flatten ++ inherited)

theorem answers_gatherWith (hfacts : s.facts? h = some facts)
    (hclosure : ∀ k, s.Leads h k → Answers hs on (closure k) (s.lineage hs k)) :
    Answers hs on (s.gatherWith closure facts) (s.lineage hs h) := by
  have hvia : ∀ r ∈ facts.supers, Answers hs on (s.interfacesVia closure r) (s.via (s.lineage hs) r) := fun r hr =>
    answers_interfacesVia fun k hk => hclosure k (leads_of_resolve hfacts hr hk)
  have hvalue : s.lineage hs h = TypeRef.distinct
      ((facts.interfaces.map fun i => i :: s.via (s.lineage hs) i).flatten ++
        facts.parent?.toList.flatMap (s.via (s.lineage hs))) := by
    rw [lineage_eq, gathered, hfacts, ← List.flatMap_def]
  rw [hvalue]
  have hdeclared : ∀ i ∈ facts.interfaces, Answers hs on
      (do let extended ← s.interfacesVia closure i; return i :: extended) (i :: s.via (s.lineage hs) i) :=
    fun i hi => (hvia i (TypeFacts.mem_supers.2 (Or.inl hi))).bind (answers_pure _)
  have hinherited : Answers hs on (facts.parent?.elim (pure []) (s.interfacesVia closure))
      (facts.parent?.toList.flatMap (s.via (s.lineage hs))) := by
    cases hparent : facts.parent? with
    | none => exact answers_pure _
    | some base =>
      rw [Option.toList_some, List.flatMap_singleton]
      exact hvia base (TypeFacts.mem_supers.2 (Or.inr hparent))
  exact (Answers.mapM hdeclared).bind (hinherited.bind (answers_pure _))

/-- one definition: its list is known, or gathered while an empty one stands for it -/
theorem run_closureWithin (s : FactSet) (depth : Nat) (h : TypeHandle) (known : Closures) :
    (s.closureWithin (depth + 1) h).run known =
      match known.lookup h with
      | some list => pure (list, known)
      | none =>
        match s.facts? h with
        | none => pure ([], (h, []) :: known)
        | some facts =>
          (s.gatherWith (s.closureWithin depth) facts).run ((h, []) :: known) >>= fun p =>
            pure (p.1, (h, p.1) :: p.2) := by
  rw [closureWithin]
  cases hknown : known.lookup h with
  | some list =>
    simp only [StateT.run_bind, StateT.run_get, pure_bind, hknown]
    rfl
  | none =>
    simp only [StateT.run_bind, StateT.run_get, pure_bind, hknown]
    cases hfacts : s.facts? h with
    | none => rfl
    | some facts =>
      simp only [gatherWith, TypeFacts.parent?]
      cases facts.kind <;> cases facts.baseType <;> rfl

/-- **Closures.** With room for all that a definition leads to, the kept computation gives what plain recursion gives. -/
theorem answers_closureWithin (depth : Nat) (h : TypeHandle) (hdepth : s.height h < depth) :
    Answers hs (Relation.ReflTransGen s.Leads h) (s.closureWithin depth h) (s.lineage hs h) := by
  induction depth generalizing h with
  | zero => exact absurd hdepth (Nat.not_lt_zero _)
  | succ depth ih =>
    intro known hright
    rw [run_closureWithin]
    cases hknown : known.lookup h with
    | some list =>
      obtain rfl := hright h .refl list hknown
      exact ⟨known, rfl, fun _ hk => hk⟩
    | none =>
      cases hfacts : s.facts? h with
      | none =>
        have hempty : s.lineage hs h = [] := by
          rw [lineage_eq, gathered, hfacts]
          rfl
        rw [hempty]
        refine ⟨(h, []) :: known, rfl, fun k hk => Closures.right_cons ?_ fun _ => hk⟩
        rintro rfl
        exact hempty.symm
      | some facts =>
        -- the empty list stands for `h` alone, which nothing below leads back to
        have hseeded : ∀ k, k ≠ h → known.Right hs k → Closures.Right hs ((h, []) :: known) k :=
          fun k hne hk => Closures.right_cons (fun heq => absurd heq hne) fun _ => hk
        have hgather : Answers hs (Relation.TransGen s.Leads h) (s.gatherWith (s.closureWithin depth) facts)
            (s.lineage hs h) := by
          refine answers_gatherWith hfacts fun k hk => ?_
          have hheight := height_lt hs hk
          exact (ih k (by omega)).mono fun l hl => Relation.TransGen.head' hk hl
        obtain ⟨known', hrun, hkeep⟩ := hgather ((h, []) :: known) fun k hk =>
          hseeded k (fun heq => hs h (heq ▸ hk)) (hright k hk.to_reflTransGen)
        refine ⟨(h, s.lineage hs h) :: known', ?_, fun k hk => Closures.right_cons (fun heq => heq ▸ rfl) fun hne => ?_⟩
        · simp only [hrun, pure_bind]
        · exact hkeep k (hseeded k hne hk)

/-- all interfaces of a definition -/
theorem answers_closure (h : TypeHandle) :
    Answers hs (Relation.ReflTransGen s.Leads h) (s.closure h) (s.lineage hs h) :=
  answers_closureWithin _ h (Nat.lt_succ_of_le (s.height_le h))

end FactSet

/-! ## Steady computations -/

namespace Resolving

/-- the answer when nothing was asked before -/
def alone (m : Resolving α) : α := (m.run []).run.1

/-- the computation has one answer wherever all that is kept is right, and leaves it right -/
def Steady (m : Resolving α) : Prop := Answers hs (fun _ => True) m (alone m)

variable {hs} {on : TypeHandle → Prop} {m : Resolving α} {f : α → Resolving β} {a : α}

theorem Answers.alone_eq (hm : Answers hs on m a) : alone m = a := by
  obtain ⟨known', hrun, -⟩ := hm [] fun h _ list hlist => by simp at hlist
  rw [alone, hrun]
  rfl

theorem Answers.steady (hm : Answers hs on m a) : Steady hs m := by
  rw [Steady, hm.alone_eq]
  exact hm.mono fun _ _ => trivial

theorem steady_pure (a : α) : Steady hs (pure a) := fun known _ => ⟨known, rfl, fun _ hh => hh⟩

/-- the computations, of one fact set each, have the same answer wherever all that is kept is right -/
def SameAnswer {s' : FactSet} (hs : s.Acyclic) (hs' : s'.Acyclic) (m m' : Resolving α) : Prop :=
  ∃ a, Answers hs (fun _ => True) m a ∧ Answers hs' (fun _ => True) m' a

section

variable {s' : FactSet} {hs' : s'.Acyclic} {m' : Resolving α}

theorem sameAnswer_pure (a : α) : SameAnswer hs hs' (pure a) (pure a) := ⟨a, answers_pure a, answers_pure a⟩

theorem SameAnswer.bind {f' : α → Resolving β} (hm : SameAnswer hs hs' m m')
    (hf : ∀ a, SameAnswer hs hs' (f a) (f' a)) : SameAnswer hs hs' (m >>= f) (m' >>= f') := by
  obtain ⟨a, ha, ha'⟩ := hm
  obtain ⟨b, hb, hb'⟩ := hf a
  exact ⟨b, ha.bind hb, ha'.bind hb'⟩

theorem SameAnswer.map (hm : SameAnswer hs hs' m m') (g : α → β) : SameAnswer hs hs' (g <$> m) (g <$> m') := by
  obtain ⟨a, ha, ha'⟩ := hm
  exact ⟨g a, ha.map g, ha'.map g⟩

theorem SameAnswer.steady (hm : SameAnswer hs hs' m m') : Steady hs m := by
  obtain ⟨a, ha, -⟩ := hm
  exact ha.steady

end

end Resolving

namespace FactSet

variable {hs} {h : TypeHandle} {facts : TypeFacts} (visible : TypeRef → Bool)

/-! ## Queries -/

theorem answers_allInterfaces (r : TypeRef) :
    Answers hs (fun _ => True) (s.allInterfaces r) (s.via (s.lineage hs) r) :=
  answers_interfacesVia fun k _ => (answers_closure k).mono fun _ _ => trivial

/-- the interfaces that an interface lists -/
theorem answers_directInterfaces_interface (hfacts : s.facts? h = some facts) (hkind : facts.kind = .interfaceType) :
    Answers hs (fun _ => True) (s.directInterfaces visible h)
      (withoutImplied ((s.lineage hs h).filter visible)
        (((s.lineage hs h).filter visible).map (s.via (s.lineage hs)))) := by
  unfold directInterfaces
  rw [hfacts]
  refine ((answers_closure h).mono fun _ _ => trivial).bind ?_
  rw [hkind]
  exact (Answers.mapM fun i _ => answers_allInterfaces i).bind (answers_pure _)

/-- the interfaces that any other type lists -/
theorem answers_directInterfaces_other (hfacts : s.facts? h = some facts) (hkind : facts.kind ≠ .interfaceType) :
    Answers hs (fun _ => True) (s.directInterfaces visible h)
      (((s.lineage hs h).filter visible).filter fun i =>
        !((facts.parent?.toList.flatMap (s.via (s.lineage hs))).map TypeRef.canonicalName).contains i.canonicalName ||
          (s.interfaceMap h i).any fun slot => slot.implementation.owner == h) := by
  have hparent : facts.parent? = facts.baseType := by
    unfold TypeFacts.parent?
    split
    · next h => exact absurd h hkind
    · rfl
  unfold directInterfaces
  rw [hfacts, hparent]
  refine ((answers_closure h).mono fun _ _ => trivial).bind ?_
  split
  · next h => exact absurd h hkind
  · cases facts.baseType with
    | none => exact (answers_pure []).bind (answers_pure _)
    | some base =>
      rw [Option.toList_some, List.flatMap_singleton]
      exact (answers_allInterfaces base).bind (answers_pure _)

theorem steady_directInterfaces (h : TypeHandle) : Steady hs (s.directInterfaces visible h) := by
  cases hfacts : s.facts? h with
  | none =>
    unfold directInterfaces
    rw [hfacts]
    exact steady_pure []
  | some facts =>
    by_cases hkind : facts.kind = .interfaceType
    · exact (answers_directInterfaces_interface visible hfacts hkind).steady
    · exact (answers_directInterfaces_other visible hfacts hkind).steady

/-- what stands for an interface constraint: itself, or the visible interfaces it extends -/
def shown (s : FactSet) (c : TypeRef) : Resolving (List TypeRef) :=
  if visible c then pure [c] else List.filter visible <$> s.allInterfaces c

theorem partConstraints_cons (valueType : Bool) (bound : Option TypeRef) (c : TypeRef) (rest : List TypeRef) :
    s.partConstraints visible valueType bound (c :: rest) =
      if valueType && c.canonicalName == valueTypeName then s.partConstraints visible valueType bound rest
      else if bound.isNone && s.isClass c then s.partConstraints visible valueType (some c) rest
      else s.shown visible c >>= fun shown =>
        s.partConstraints visible valueType bound rest >>= fun parted => pure (parted.1, shown ++ parted.2) := by
  rw [partConstraints, shown]
  cases visible c <;> rfl

/-- the class bound, then the interfaces that neither it nor the declaration of another one brings in -/
def pruned (s : FactSet) (bound : Option TypeRef) (interfaces inherited : List TypeRef) : List TypeRef :=
  bound.toList ++ (withoutImplied interfaces (interfaces.map s.declaredInterfaces)).filter fun i =>
    !(inherited.map TypeRef.canonicalName).contains i.canonicalName

theorem constraintSet_eq (parameter : GenericFacts) : s.constraintSet visible parameter =
    s.partConstraints visible parameter.valueType none parameter.constraints >>= fun parted =>
      parted.1.elim (pure []) s.allInterfaces >>= fun inherited =>
        pure (s.pruned parted.1 (TypeRef.distinct parted.2) inherited) := by
  unfold constraintSet
  congr 1
  funext parted
  obtain ⟨bound, all⟩ := parted
  cases bound <;> rfl

section

variable {s' : FactSet} {hs' : s'.Acyclic} (hall : ∀ r, SameAnswer hs hs' (s.allInterfaces r) (s'.allInterfaces r))
  (hdefinition : ∀ r, s.definition? r = s'.definition? r)
include hall

theorem sameAnswer_shown (c : TypeRef) : SameAnswer hs hs' (s.shown visible c) (s'.shown visible c) := by
  unfold shown
  split
  · exact sameAnswer_pure [c]
  · exact (hall c).map _

include hdefinition

theorem sameAnswer_partConstraints (valueType : Bool) (bound : Option TypeRef) (constraints : List TypeRef) :
    SameAnswer hs hs' (s.partConstraints visible valueType bound constraints)
      (s'.partConstraints visible valueType bound constraints) := by
  induction constraints generalizing bound with
  | nil => exact sameAnswer_pure (bound, [])
  | cons c rest ih =>
    have hclass : s.isClass c = s'.isClass c := by rw [isClass, isClass, hdefinition]
    rw [partConstraints_cons, partConstraints_cons, hclass]
    split
    · exact ih bound
    · split
      · exact ih (some c)
      · exact (sameAnswer_shown visible hall c).bind fun shown => (ih bound).bind fun parted => sameAnswer_pure _

/-- constraint sets are the same where all interfaces and definitions are -/
theorem sameAnswer_constraintSet (parameter : GenericFacts) :
    SameAnswer hs hs' (s.constraintSet visible parameter) (s'.constraintSet visible parameter) := by
  have hdeclared : s.declaredInterfaces = s'.declaredInterfaces := by
    funext r
    rw [declaredInterfaces, declaredInterfaces, hdefinition]
  have hpruned : s.pruned = s'.pruned := by
    funext bound interfaces inherited
    rw [pruned, pruned, hdeclared]
  rw [constraintSet_eq, constraintSet_eq, hpruned]
  refine (sameAnswer_partConstraints visible hall hdefinition _ none _).bind fun parted => ?_
  refine SameAnswer.bind ?_ fun inherited => sameAnswer_pure _
  cases parted.1 with
  | none => exact sameAnswer_pure []
  | some base => exact hall base

end

theorem steady_constraintSet (parameter : GenericFacts) : Steady hs (s.constraintSet visible parameter) := by
  have hall : ∀ r, SameAnswer hs hs (s.allInterfaces r) (s.allInterfaces r) := fun r =>
    ⟨_, answers_allInterfaces r, answers_allInterfaces r⟩
  exact (sameAnswer_constraintSet visible hall (fun _ => rfl) parameter).steady

end FactSet

/-- what a resolver is asked -/
inductive Query where
  /-- the interfaces to record on a type -/
  | direct (h : TypeHandle)
  | all (r : TypeRef)
  | declared (r : TypeRef)
  /-- the bounds to record for a generic parameter -/
  | constraints (parameter : GenericFacts)
deriving DecidableEq, Repr

namespace Query

/-- the answer of a resolver that shows what a predicate accepts -/
def ask (s : FactSet) (visible : TypeRef → Bool) : Query → Resolving (List TypeRef)
  | direct h => s.directInterfaces visible h
  | all r => s.allInterfaces r
  | declared r => pure (s.declaredInterfaces r)
  | constraints parameter => s.constraintSet visible parameter

theorem steady_ask (visible : TypeRef → Bool) (q : Query) : Steady hs (q.ask s visible) := by
  cases q with
  | direct h => exact s.steady_directInterfaces visible h
  | all r => exact (FactSet.answers_allInterfaces r).steady
  | declared r => exact steady_pure _
  | constraints parameter => exact s.steady_constraintSet visible parameter

end Query

/-- **Keeping lists changes no answer.** On a fact set whose definition graph is acyclic, each of any sequence of queries
made on one resolver is answered as if it were the only one; and all interfaces of a reference are those of its definition
with its arguments, which plain recursion gives. -/
theorem answers_transparent (visible : TypeRef → Bool) (queries : List Query) :
    alone (queries.mapM (Query.ask s visible)) = queries.map (fun q => alone (q.ask s visible)) ∧
      (∀ r, alone ((Query.all r).ask s visible) = s.via (s.lineage hs) r) ∧
      ∀ h, s.lineage hs h = TypeRef.distinct (s.gathered (s.lineage hs) h) :=
  ⟨(Answers.mapM fun q _ => q.steady_ask hs visible).alone_eq,
    fun r => (FactSet.answers_allInterfaces r).alone_eq, FactSet.lineage_eq hs⟩

namespace FactSet

/-- what the drawing lists, what its hidden interface extends, and a bound on hidden lists, asked of one resolver -/
theorem answers_transparent_shapes :
    let circle := TypeRef.topLevel "" "Circle"
    let shape := TypeRef.topLevel "" "IShape"
    let parameter : GenericFacts := ⟨"T", 0, false, false, false, [interfaceOf "IHidden" circle]⟩
    alone ([Query.direct ⟨3⟩, .all (interfaceOf "IHidden" shape), .constraints parameter].mapM
        (Query.ask shapes unhidden)) =
      [[interfaceOf "IList" circle, shape], [interfaceOf "IList" shape, shape], [interfaceOf "IList" circle]] ∧
    alone (shapes.allInterfaces (interfaceOf "IHidden" circle)) =
      shapes.via (shapes.lineage acyclic_shapes) (interfaceOf "IHidden" circle) := by
  intro circle shape parameter
  obtain ⟨hanswers, hall, -⟩ := answers_transparent acyclic_shapes unhidden
    [Query.direct ⟨3⟩, .all (interfaceOf "IHidden" shape), .constraints parameter]
  refine ⟨?_, hall _⟩
  rw [hanswers]
  decide

end FactSet

end ApiSurface
