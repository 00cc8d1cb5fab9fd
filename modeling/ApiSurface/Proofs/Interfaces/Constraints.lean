/-
Constraint sets, and what rerouting does to them.

A hidden interface among the constraints is replaced by the visible ones it extends. A hidden interface that another constraint
declares is not: only what a constraint itself declares counts as brought in by it. So when the declaration of a type is
rerouted around a hidden interface, it counts as bringing in what the hidden one extends, and did not before.

`alone_constraintSet`: which of the interfaces that are collected are recorded.
`implied_rewired`: what rerouting adds to those that are left out.
`constraintSet_rerouted`: the recorded bounds stay the same unless something is added.
`roundabout_not_rerouted`: something may be.
-/
import ApiSurface.Proofs.Interfaces.Rerouting

namespace ApiSurface.FactSet

open TypeRef TypeFacts Resolving

/-! ## Constraints parted -/

/-- constraints parted into the class bound and what stands for the others -/
def partedBy (isClass : TypeRef → Bool) (shown : TypeRef → List TypeRef) (valueType : Bool) :
    Option TypeRef → List TypeRef → Option TypeRef × List TypeRef
  | bound, [] => (bound, [])
  | bound, c :: rest =>
    if valueType && c.canonicalName == valueTypeName then partedBy isClass shown valueType bound rest
    else if bound.isNone && isClass c then partedBy isClass shown valueType (some c) rest
    else
      let parted := partedBy isClass shown valueType bound rest
      (parted.1, shown c ++ parted.2)

/-- a visible interface stands for itself, a hidden one for some of those it extends -/
def shownBy (visible : TypeRef → Bool) (all : TypeRef → List TypeRef) (c : TypeRef) : List TypeRef :=
  if visible c then [c] else (all c).filter visible

section

variable {isClass : TypeRef → Bool} {shown : TypeRef → List TypeRef} {valueType : Bool}

theorem bound_partedBy {bound : Option TypeRef} {constraints : List TypeRef} {c : TypeRef}
    (hbound : (partedBy isClass shown valueType bound constraints).1 = some c) : bound = some c ∨ c ∈ constraints := by
  induction constraints generalizing bound with
  | nil => exact Or.inl hbound
  | cons c' rest ih =>
    rw [partedBy] at hbound
    split_ifs at hbound with hvalue hclass
    · exact (ih hbound).imp_right (List.mem_cons_of_mem _)
    · rcases ih hbound with hc | hc
      · exact Or.inr (Option.some.inj hc ▸ List.mem_cons_self)
      · exact Or.inr (List.mem_cons_of_mem _ hc)
    · exact (ih hbound).imp_right (List.mem_cons_of_mem _)

theorem mem_partedBy {bound : Option TypeRef} {constraints : List TypeRef} {i : TypeRef}
    (hi : i ∈ (partedBy isClass shown valueType bound constraints).2) : ∃ c ∈ constraints, i ∈ shown c := by
  induction constraints generalizing bound with
  | nil => cases hi
  | cons c rest ih =>
    rw [partedBy] at hi
    split_ifs at hi with hvalue hclass
    · exact List.exists_mem_cons_of_exists (ih hi)
    · exact List.exists_mem_cons_of_exists (ih hi)
    · rcases List.mem_append.1 hi with hi | hi
      · exact ⟨c, List.mem_cons_self, hi⟩
      · exact List.exists_mem_cons_of_exists (ih hi)

end

variable {s : FactSet} {visible : TypeRef → Bool}

theorem answers_partConstraints {hs : s.Acyclic} (valueType : Bool) (bound : Option TypeRef) (constraints : List TypeRef) :
    Answers hs (fun _ => True) (s.partConstraints visible valueType bound constraints)
      (partedBy s.isClass (shownBy visible (s.via (s.lineage hs))) valueType bound constraints) := by
  induction constraints generalizing bound with
  | nil => exact answers_pure (bound, [])
  | cons c rest ih =>
    have hshown : Answers hs (fun _ => True) (s.shown visible c) (shownBy visible (s.via (s.lineage hs)) c) := by
      unfold shown shownBy
      split
      · exact answers_pure [c]
      · exact (answers_allInterfaces c).map _
    rw [partConstraints_cons, partedBy]
    split
    · exact ih bound
    · split
      · exact ih (some c)
      · exact hshown.bind ((ih bound).bind (answers_pure _))

/-! ## Recorded constraints -/

/-- the class bound of a generic parameter, and the interfaces that its other constraints stand for -/
def collected (s : FactSet) (visible : TypeRef → Bool) (p : GenericFacts) : Option TypeRef × List TypeRef :=
  let parted := alone (s.partConstraints visible p.valueType none p.constraints)
  (parted.1, distinct parted.2)

/-- the class bound brings the interface in, or another collected interface declares it -/
def Implied (s : FactSet) (visible : TypeRef → Bool) (p : GenericFacts) (r : TypeRef) : Prop :=
  (∃ base ∈ (s.collected visible p).1, r.canonicalName ∈ (alone (s.allInterfaces base)).map canonicalName) ∨
    ∃ other ∈ (s.collected visible p).2, other.canonicalName ≠ r.canonicalName ∧
      r.canonicalName ∈ (s.declaredInterfaces other).map canonicalName

instance (s : FactSet) (visible : TypeRef → Bool) (p : GenericFacts) (r : TypeRef) : Decidable (s.Implied visible p r) :=
  inferInstanceAs (Decidable (_ ∨ _))

/-- another collected interface, of a certain type, extends the interface by way of a hidden one -/
def ImpliedBehind (s : FactSet) (visible : TypeRef → Bool) (p : GenericFacts) (t : TypeHandle) (hidden r : TypeRef) : Prop :=
  ∃ other ∈ (s.collected visible p).2, other.canonicalName ≠ r.canonicalName ∧ s.resolve other = some t ∧
    r.canonicalName ∈ ((alone (s.allInterfaces (hidden.substitute other.withoutByRef.arguments))).filter visible).map
      canonicalName

instance (s : FactSet) (visible : TypeRef → Bool) (p : GenericFacts) (t : TypeHandle) (hidden r : TypeRef) :
    Decidable (s.ImpliedBehind visible p t hidden r) :=
  inferInstanceAs (Decidable (∃ other ∈ _, _))

theorem alone_allInterfaces (hs : s.Acyclic) (r : TypeRef) : alone (s.allInterfaces r) = s.via (s.lineage hs) r :=
  (answers_allInterfaces r).alone_eq

theorem alone_partConstraints (hs : s.Acyclic) (valueType : Bool) (bound : Option TypeRef) (constraints : List TypeRef) :
    alone (s.partConstraints visible valueType bound constraints) =
      partedBy s.isClass (shownBy visible (s.via (s.lineage hs))) valueType bound constraints :=
  (answers_partConstraints valueType bound constraints).alone_eq

theorem answers_constraintSet {hs : s.Acyclic} (p : GenericFacts) {parted : Option TypeRef × List TypeRef}
    (hparted : Answers hs (fun _ => True) (s.partConstraints visible p.valueType none p.constraints) parted) :
    Answers hs (fun _ => True) (s.constraintSet visible p)
      (s.pruned parted.1 (distinct parted.2) (parted.1.elim [] (s.via (s.lineage hs)))) := by
  have hinherited : Answers hs (fun _ => True) (parted.1.elim (pure []) s.allInterfaces)
      (parted.1.elim [] (s.via (s.lineage hs))) := by
    cases parted.1 with
    | none => exact answers_pure []
    | some base => exact answers_allInterfaces base
  rw [constraintSet_eq]
  exact hparted.bind (hinherited.bind (answers_pure _))

/-- **Recorded constraints.** -/
theorem alone_constraintSet (hs : s.Acyclic) (p : GenericFacts) :
    alone (s.constraintSet visible p) = (s.collected visible p).1.toList ++
      (s.collected visible p).2.filter fun r => decide ¬s.Implied visible p r := by
  have hparted : Answers hs (fun _ => True) (s.partConstraints visible p.valueType none p.constraints)
      (alone (s.partConstraints visible p.valueType none p.constraints)) := by
    rw [alone_partConstraints hs]
    exact answers_partConstraints _ _ _
  rw [(answers_constraintSet p hparted).alone_eq]
  change s.pruned (s.collected visible p).1 (s.collected visible p).2 ((s.collected visible p).1.elim [] _) = _
  rw [pruned, withoutImplied_map, List.filter_filter]
  congr 1
  apply List.filter_congr
  intro r _
  have hbase : (((s.collected visible p).1.elim [] (s.via (s.lineage hs))).map canonicalName).contains
        r.canonicalName = true ↔
      ∃ base ∈ (s.collected visible p).1, r.canonicalName ∈ (alone (s.allInterfaces base)).map canonicalName := by
    rw [List.contains_iff_mem]
    cases (s.collected visible p).1 with
    | none => simp
    | some base => simp [alone_allInterfaces hs]
  have hother : ((s.collected visible p).2.any fun other => other.canonicalName != r.canonicalName &&
        ((s.declaredInterfaces other).map canonicalName).contains r.canonicalName) = true ↔
      ∃ other ∈ (s.collected visible p).2, other.canonicalName ≠ r.canonicalName ∧
        r.canonicalName ∈ (s.declaredInterfaces other).map canonicalName := by
    simp only [List.any_eq_true, Bool.and_eq_true, bne_iff_ne, List.contains_iff_mem]
  rw [Bool.eq_iff_iff, decide_eq_true_eq, Implied, ← hbase, ← hother, not_or, Bool.and_eq_true, Bool.not_eq_true',
    Bool.not_eq_true', Bool.not_eq_true, Bool.not_eq_true]

/-! ## Surroundings -/

/-- what an interface declares it extends -/
theorem declaredInterfaces_subset (hs : s.Acyclic) (ho : s.Orderly) (r : TypeRef) :
    s.declaredInterfaces r ⊆ s.via (s.lineage hs) r := by
  intro i hi
  unfold declaredInterfaces at hi
  cases hdefinition : s.definition? r with
  | none =>
    rw [hdefinition] at hi
    cases hi
  | some facts =>
    rw [hdefinition] at hi
    obtain ⟨k, hk, hfacts⟩ := Option.bind_eq_some_iff.1 hdefinition
    obtain ⟨j, hj, rfl⟩ := List.mem_map.1 hi
    refine mem_via.2 ⟨k, hk, j, (lineage_sameFirsts ho k).mem_iff.2 ?_, rfl⟩
    rw [gathered_eq _ hfacts]
    exact List.mem_append_left _ (List.mem_flatMap.2 ⟨j, hj, List.mem_cons_self⟩)

/-- the constraints and what they extend -/
def surroundings (s : FactSet) (p : GenericFacts) : List TypeRef :=
  p.constraints ++ p.constraints.flatMap fun c => alone (s.allInterfaces c)

section

variable {p : GenericFacts}

theorem mem_surroundings (hs : s.Acyclic) {r : TypeRef} :
    r ∈ s.surroundings p ↔ r ∈ p.constraints ∨ ∃ c ∈ p.constraints, r ∈ s.via (s.lineage hs) c := by
  unfold surroundings
  simp only [List.mem_append, List.mem_flatMap, alone_allInterfaces hs]

theorem bound_mem_surroundings (hs : s.Acyclic) {base : TypeRef} (hbase : base ∈ (s.collected visible p).1) :
    base ∈ p.constraints := by
  unfold collected at hbase
  rw [alone_partConstraints hs] at hbase
  rcases bound_partedBy hbase with hnone | hmem
  · cases hnone
  · exact hmem

/-- what stands for a constraint is visible and the constraint itself, or extended by it if it is hidden -/
theorem mem_shownBy {all : TypeRef → List TypeRef} {c i : TypeRef} :
    i ∈ shownBy visible all c ↔ visible i = true ∧ (i = c ∨ visible c = false ∧ i ∈ all c) := by
  unfold shownBy
  split
  · next hvisible =>
    rw [List.mem_singleton]
    constructor
    · rintro rfl
      exact ⟨hvisible, Or.inl rfl⟩
    · rintro ⟨-, rfl | ⟨hhidden, -⟩⟩
      · rfl
      · rw [hvisible] at hhidden
        cases hhidden
  · next hhidden =>
    rw [List.mem_filter]
    constructor
    · exact fun hi => ⟨hi.2, Or.inr ⟨Bool.eq_false_iff.2 hhidden, hi.1⟩⟩
    · rintro ⟨hvisible, rfl | ⟨-, hi⟩⟩
      · exact absurd hvisible hhidden
      · exact ⟨hi, hvisible⟩

theorem mem_surroundings_of_shown (hs : s.Acyclic) {c i : TypeRef} (hc : c ∈ p.constraints)
    (hi : i ∈ shownBy visible (s.via (s.lineage hs)) c) : i ∈ s.surroundings p := by
  rw [mem_surroundings hs]
  rcases (mem_shownBy.1 hi).2 with rfl | ⟨-, hi⟩
  · exact Or.inl hc
  · exact Or.inr ⟨c, hc, hi⟩

/-- what is collected stands for a constraint -/
theorem exists_shown (hs : s.Acyclic) {r : TypeRef} (hr : r ∈ (s.collected visible p).2) :
    ∃ c ∈ p.constraints, r ∈ shownBy visible (s.via (s.lineage hs)) c := by
  unfold collected at hr
  rw [alone_partConstraints hs] at hr
  exact mem_partedBy (mem_of_mem_distinctAfter hr)

/-- so it is visible, and a constraint or extended by one -/
theorem mem_collected (hs : s.Acyclic) {r : TypeRef} (hr : r ∈ (s.collected visible p).2) :
    visible r = true ∧ r ∈ s.surroundings p := by
  obtain ⟨c, hc, hshown⟩ := exists_shown hs hr
  exact ⟨(mem_shownBy.1 hshown).1, mem_surroundings_of_shown hs hc hshown⟩

/-- the surroundings hold what their references extend -/
theorem via_subset_surroundings (hs : s.Acyclic) (ho : s.Orderly) {r : TypeRef} (hr : r ∈ s.surroundings p) :
    s.via (s.lineage hs) r ⊆ s.surroundings p := by
  intro i hi
  rw [mem_surroundings hs] at hr ⊢
  rcases hr with hr | ⟨c, hc, hr⟩
  · exact Or.inr ⟨r, hr, hi⟩
  · exact Or.inr ⟨c, hc, via_subset ho hr hi⟩

end

/-! ## Rerouting -/

section

variable {t : TypeHandle} {facts : TypeFacts} {interfaces : List TypeRef} {p : GenericFacts}

theorem isClass_rewired : (s.rewired t interfaces).isClass = s.isClass := by
  funext r
  unfold isClass definition?
  rw [resolve_rewired]
  cases s.resolve r with
  | none => rfl
  | some h =>
    rw [Option.bind_some, Option.bind_some]
    cases hfacts : s.facts? h with
    | none => rw [facts?_rewired, hfacts, Option.map_none]
    | some facts =>
      obtain ⟨facts', hfacts', hkind, -⟩ := exists_facts?_rewired t interfaces hfacts
      rw [hfacts']
      dsimp only
      rw [hkind]

/-- the interfaces of the rewired set were brought in before -/
theorem via_rewired_subset {hs : s.Acyclic} (hs' : (s.rewired t interfaces).Acyclic) (hfacts : s.facts? t = some facts)
    (hbrought : ∀ i ∈ interfaces, s.Brings t i) (ho : s.Orderly) (r : TypeRef) :
    (s.rewired t interfaces).via ((s.rewired t interfaces).lineage hs') r ⊆ s.via (s.lineage hs) r := by
  intro i hi
  obtain ⟨k, hk, j, hj, rfl⟩ := mem_via.1 hi
  rw [resolve_rewired] at hk
  have hbrings : s.Brings k j := brings_of_brings_rewired hfacts hbrought ho (brings_of_mem_lineage hj)
  have hgathered : ∀ h, s.gathered (s.lineage hs) h ⊆ s.lineage hs h := fun h _ hx =>
    (lineage_sameFirsts ho h).mem_iff.2 hx
  exact mem_via.2 ⟨k, hk, j, hbrings.mem_of_gathered hgathered, rfl⟩

variable (hs : s.Acyclic) (ho : s.Orderly) (hkeep : Stable visible) (hfacts : s.facts? t = some facts)
  (hbrought : ∀ i ∈ interfaces, s.Brings t i)
  (hsame : SameFirsts ((s.followed (s.lineage hs) interfaces).filter visible)
    ((s.followed (s.lineage hs) facts.interfaces).filter visible))
include ho hkeep hfacts hbrought hsame

/-- references show what they did -/
theorem filter_allInterfaces_rewired (hs' : (s.rewired t interfaces).Acyclic) (r : TypeRef) :
    (alone ((s.rewired t interfaces).allInterfaces r)).filter visible = (alone (s.allInterfaces r)).filter visible := by
  rw [alone_allInterfaces hs, alone_allInterfaces hs']
  exact filter_via_rewired hs' hfacts hbrought ho hkeep fun k _ =>
    filter_lineage_rewired hs' hfacts hbrought ho hkeep hsame k

/-- so what is collected stays the same -/
theorem collected_rewired : (s.rewired t interfaces).collected visible p = s.collected visible p := by
  have hs' := acyclic_rewired hfacts hbrought ho hs
  have hshown : shownBy visible ((s.rewired t interfaces).via ((s.rewired t interfaces).lineage hs')) =
      shownBy visible (s.via (s.lineage hs)) := by
    funext c
    have hc := filter_allInterfaces_rewired hs ho hkeep hfacts hbrought hsame hs' c
    rw [alone_allInterfaces hs, alone_allInterfaces hs'] at hc
    rw [shownBy, shownBy, hc]
  unfold collected
  rw [alone_partConstraints hs, alone_partConstraints hs', isClass_rewired, hshown]

/-- the class bound brings in the visible interfaces that it did -/
theorem inherited_rewired (htelling : NamesTell (s.surroundings p)) {base r : TypeRef}
    (hbase : base ∈ (s.collected visible p).1) (hr : r ∈ (s.collected visible p).2) :
    r.canonicalName ∈ (alone ((s.rewired t interfaces).allInterfaces base)).map canonicalName ↔
      r.canonicalName ∈ (alone (s.allInterfaces base)).map canonicalName := by
  have hs' := acyclic_rewired hfacts hbrought ho hs
  have hshown := filter_allInterfaces_rewired hs ho hkeep hfacts hbrought hsame hs' base
  obtain ⟨hvisible, hsurrounds⟩ := mem_collected hs hr
  rw [alone_allInterfaces hs, alone_allInterfaces hs'] at hshown ⊢
  have htells : ∀ i ∈ s.via (s.lineage hs) base, i.canonicalName = r.canonicalName → i = r := fun i hi =>
    htelling i (via_subset_surroundings hs ho
      ((mem_surroundings hs).2 (Or.inl (bound_mem_surroundings hs hbase))) hi) r hsurrounds
  have hmem : ∀ is : List TypeRef, is ⊆ s.via (s.lineage hs) base →
      (r.canonicalName ∈ is.map canonicalName ↔ r ∈ is.filter visible) := by
    intro is his
    rw [List.mem_map, List.mem_filter]
    constructor
    · rintro ⟨i, hi, hname⟩
      obtain rfl := htells i (his hi) hname
      exact ⟨hi, hvisible⟩
    · exact fun hi => ⟨r, hi.1, rfl⟩
  rw [hmem _ (via_rewired_subset hs' hfacts hbrought ho base), hmem _ (List.Subset.refl _), hshown]

end

section

variable {t : TypeHandle} {facts : TypeFacts} {front back : List TypeRef} {hidden : TypeRef} {p : GenericFacts}
  (hs : s.Acyclic) (ho : s.Orderly) (hkeep : Stable visible) (hfacts : s.facts? t = some facts)
  (hinterfaces : facts.interfaces = front ++ hidden :: back) (hhidden : visible hidden = false)
  (htelling : NamesTell (s.surroundings p))
include hs ho hkeep hfacts hinterfaces hhidden htelling

/-- **What a declaration brings in.** In place of the hidden interface, a collected interface declares the visible ones that it
extends, and whatever else it declared. -/
theorem declared_rerouted {other r : TypeRef} (hother : other ∈ (s.collected visible p).2)
    (hr : r ∈ (s.collected visible p).2) :
    r.canonicalName ∈ ((s.rewired t (front ++ (alone (s.allInterfaces hidden)).filter visible ++ back)).declaredInterfaces
        other).map canonicalName ↔
      r.canonicalName ∈ (s.declaredInterfaces other).map canonicalName ∨ s.resolve other = some t ∧
        r.canonicalName ∈ ((alone (s.allInterfaces (hidden.substitute other.withoutByRef.arguments))).filter visible).map
          canonicalName := by
  obtain ⟨-, hothers⟩ := mem_collected hs hother
  obtain ⟨hvisible, hrs⟩ := mem_collected hs hr
  by_cases ht : s.resolve other = some t
  · have hmem : hidden ∈ facts.interfaces := hinterfaces ▸ List.mem_append_right _ List.mem_cons_self
    have hsupers : hidden ∈ facts.supers := mem_supers.2 (Or.inl hmem)
    have hplain : hidden.isPlaceholder = false := ho.concrete t facts hfacts hidden hmem
    have hdeclared : s.declaredInterfaces other =
        (front ++ hidden :: back).map (substitute other.withoutByRef.arguments) := by
      rw [declaredInterfaces, definition?_of_resolve ht, hfacts, ← hinterfaces]
    have hdeclared' : (s.rewired t (front ++ (alone (s.allInterfaces hidden)).filter visible ++ back)).declaredInterfaces
        other = (front ++ (alone (s.allInterfaces hidden)).filter visible ++ back).map
          (substitute other.withoutByRef.arguments) := by
      rw [declaredInterfaces, definition?, resolve_rewired, ht, Option.bind_some, facts?_rewired_self hfacts]
    -- what the hidden interface extends is visible with or without the arguments
    have hbehind : (alone (s.allInterfaces (hidden.substitute other.withoutByRef.arguments))).filter visible =
        ((alone (s.allInterfaces hidden)).filter visible).map (substitute other.withoutByRef.arguments) := by
      rw [alone_allInterfaces hs, alone_allInterfaces hs,
        via_substitute ho _ hplain (ho.supplied t facts hfacts hidden hsupers), List.filter_map]
      congr 1
      apply List.filter_congr
      intro i hi
      exact hkeep i _ ((brings_of_mem_via hfacts hsupers hi).isPlaceholder ho)
    -- the hidden interface itself is none of those collected
    have hnot : r.canonicalName ≠ (hidden.substitute other.withoutByRef.arguments).canonicalName := by
      intro hname
      have hextends : hidden.substitute other.withoutByRef.arguments ∈ s.surroundings p := by
        refine via_subset_surroundings hs ho hothers (declaredInterfaces_subset hs ho other ?_)
        rw [hdeclared]
        exact List.mem_map_of_mem (List.mem_append_right _ List.mem_cons_self)
      rw [htelling r hrs _ hextends hname, hkeep hidden _ hplain, hhidden] at hvisible
      cases hvisible
    rw [hdeclared, hdeclared', hbehind, and_iff_right ht]
    simp only [List.map_append, List.map_cons, List.mem_append, List.mem_cons, hnot, false_or]
    exact or_right_comm
  · have hsame : (s.rewired t (front ++ (alone (s.allInterfaces hidden)).filter visible ++ back)).declaredInterfaces other =
        s.declaredInterfaces other := by
      rw [declaredInterfaces, declaredInterfaces, definition?, definition?, resolve_rewired]
      cases hk : s.resolve other with
      | none => rfl
      | some k =>
        have hne : k ≠ t := fun heq => ht (heq ▸ hk)
        rw [Option.bind_some, Option.bind_some, facts?_rewired_of_ne hne]
    rw [hsame, or_iff_left fun h => ht h.1]

/-- **What else is left out.** Those interfaces that another collected one extends by way of the hidden interface. -/
theorem implied_rerouted {r : TypeRef} (hr : r ∈ (s.collected visible p).2) :
    (s.rewired t (front ++ (alone (s.allInterfaces hidden)).filter visible ++ back)).Implied visible p r ↔
      s.Implied visible p r ∨ s.ImpliedBehind visible p t hidden r := by
  have hbrought := brought_replaced hfacts hinterfaces ho hs visible
  have hsame := followed_replaced hinterfaces ho hs hkeep hhidden
  rw [← alone_allInterfaces hs] at hbrought hsame
  unfold Implied ImpliedBehind
  rw [collected_rewired hs ho hkeep hfacts hbrought hsame, or_assoc]
  refine or_congr (exists_congr fun base => and_congr_right fun hbase => ?_)
    (Iff.trans (exists_congr fun other => ?_) exists_or)
  · exact inherited_rewired hs ho hkeep hfacts hbrought hsame htelling hbase hr
  · rw [← and_or_left, ← and_or_left]
    refine and_congr_right fun hother => and_congr_right fun _ => ?_
    exact declared_rerouted hs ho hkeep hfacts hinterfaces hhidden htelling hother hr

/-- so these are left out of what is recorded -/
theorem alone_constraintSet_rerouted :
    alone ((s.rewired t (front ++ (alone (s.allInterfaces hidden)).filter visible ++ back)).constraintSet visible p) =
      (s.collected visible p).1.toList ++ ((s.collected visible p).2.filter fun r => decide ¬s.Implied visible p r).filter
        fun r => decide ¬s.ImpliedBehind visible p t hidden r := by
  have hbrought := brought_replaced hfacts hinterfaces ho hs visible
  have hsame := followed_replaced hinterfaces ho hs hkeep hhidden
  rw [← alone_allInterfaces hs] at hbrought hsame
  rw [alone_constraintSet (acyclic_rewired hfacts hbrought ho hs), collected_rewired hs ho hkeep hfacts hbrought hsame,
    List.filter_filter]
  congr 1
  apply List.filter_congr
  intro r hr
  rw [← Bool.decide_and, decide_eq_decide, implied_rerouted hs ho hkeep hfacts hinterfaces hhidden htelling hr, not_or,
    and_comm]

end

/-- **Rerouting and constraints.** In an orderly hierarchy, when a hidden interface that a type declares is replaced by the
visible ones it extends, a generic parameter has the bounds it had exactly if whatever interface one of its other constraints
extends by way of the hidden interface was left out anyway. -/
theorem constraintSet_rerouted {t : TypeHandle} {facts : TypeFacts} {front back : List TypeRef} {hidden : TypeRef}
    (hs : s.Acyclic) (ho : s.Orderly) (hvisible : Keyed visible) (hfacts : s.facts? t = some facts)
    (hinterfaces : facts.interfaces = front ++ hidden :: back) (hhidden : visible hidden = false) (p : GenericFacts)
    (htelling : NamesTell (s.surroundings p)) :
    (alone ((s.rewired t (front ++ (alone (s.allInterfaces hidden)).filter visible ++ back)).constraintSet visible p)).map
        canonicalName = (alone (s.constraintSet visible p)).map canonicalName ↔
      ∀ r ∈ (s.collected visible p).2, s.ImpliedBehind visible p t hidden r → s.Implied visible p r := by
  rw [alone_constraintSet_rerouted hs ho hvisible.stable hfacts hinterfaces hhidden htelling, alone_constraintSet hs,
    List.map_append, List.map_append, List.append_cancel_left_eq]
  constructor
  · intro hnames r hr hbehind
    have hlength := congrArg List.length hnames
    rw [List.length_map, List.length_map, List.length_filter_eq_length_iff] at hlength
    by_contra hkept
    have hr' := hlength r (List.mem_filter.2 ⟨hr, decide_eq_true hkept⟩)
    exact of_decide_eq_true hr' hbehind
  · intro hbehind
    rw [List.filter_eq_self.2]
    intro r hr
    obtain ⟨hr, hkept⟩ := List.mem_filter.1 hr
    exact decide_eq_true fun h => of_decide_eq_true hkept (hbehind r hr h)

/-- a circle that is a shape by way of a hidden interface, and a drawing that is one itself -/
def roundabout : FactSet where
  identity := "Shapes"
  entries := [
    bareType .interfaceType .pub (.topLevel "" "IShape") [],
    bareType .interfaceType .internal (interfaceOf "IHidden" typeT) [.topLevel "" "IShape"],
    bareType .interfaceType .pub (.topLevel "" "ICircle") [interfaceOf "IHidden" (.topLevel "" "ICircle")],
    bareType .classType .pub (.topLevel "" "Drawing") [.topLevel "" "IShape"]]

/-- a type parameter with constraints -/
def constrained (constraints : List TypeRef) : GenericFacts := ⟨"T", 0, false, false, false, constraints⟩

theorem acyclic_roundabout : roundabout.Acyclic := acyclic_of_earlier (by decide)

theorem orderly_roundabout : roundabout.Orderly := by
  have htelling := telling_of_lists (s := roundabout)
    [[], [.topLevel "" "IShape"], [interfaceOf "IHidden" (.topLevel "" "ICircle"), .topLevel "" "IShape"],
      [.topLevel "" "IShape"]] (by decide) (by decide)
  exact ⟨of_facts? (by decide), of_facts? (by decide), htelling⟩

/-- where a drawing is asked for, a shape is left out anyway -/
theorem constraintSet_rerouted_drawing :
    let p := constrained [.topLevel "" "Drawing", .topLevel "" "IShape", .topLevel "" "ICircle"]
    (alone ((roundabout.rewired ⟨2⟩ [.topLevel "" "IShape"]).constraintSet unhidden p)).map canonicalName =
      ["Drawing", "ICircle"] := by
  intro p
  have hinterfaces : (roundabout.entries[2]).facts.interfaces =
      [] ++ interfaceOf "IHidden" (.topLevel "" "ICircle") :: [] := rfl
  have hbounds := (constraintSet_rerouted (t := ⟨2⟩) acyclic_roundabout orderly_roundabout keyed_unhidden rfl hinterfaces
    (by decide) p (by decide)).2 (by decide)
  exact hbounds.trans (by decide)

/-- **Rerouting may change the bounds.** A shape that is asked for beside a circle is recorded, until the circle is declared to
be a shape. -/
theorem roundabout_not_rerouted :
    let p := constrained [.topLevel "" "IShape", .topLevel "" "ICircle"]
    roundabout.Acyclic ∧ roundabout.Orderly ∧ NamesTell (roundabout.surroundings p) ∧
      (∀ c ∈ p.constraints, roundabout.Supplies c) ∧ Keyed unhidden ∧
      unhidden (interfaceOf "IHidden" (.topLevel "" "ICircle")) = false ∧
      (alone (roundabout.allInterfaces (interfaceOf "IHidden" (.topLevel "" "ICircle")))).filter unhidden =
        [.topLevel "" "IShape"] ∧
      alone (roundabout.constraintSet unhidden p) = [.topLevel "" "IShape", .topLevel "" "ICircle"] ∧
      alone ((roundabout.rewired ⟨2⟩ [.topLevel "" "IShape"]).constraintSet unhidden p) = [.topLevel "" "ICircle"] :=
  ⟨acyclic_roundabout, orderly_roundabout, by decide, by decide, keyed_unhidden, by decide, by decide, by decide, by decide⟩

end ApiSurface.FactSet
