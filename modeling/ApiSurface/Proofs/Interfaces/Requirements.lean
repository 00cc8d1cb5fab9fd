/-
What a generic parameter asks for, against the bounds that are recorded for it.

A constraint is left out when the class bound brings it in, or another constraint declares it. The other one may be left out
too, for a third or for the class bound. But what declares stands higher in the definition graph, so above every interface that
is left out there is an uppermost one that was collected; no other one declares that, so it is recorded, or the class bound
brings it in, and with it all that stands below.

`shown_subset_partedBy`: a constraint becomes the class bound, or what stands for it is collected.
`recorded_or_brought`: a collected interface is recorded, or brought in by something recorded.
`constraintSet_gives`: the recorded bounds, and that they give all that is asked for.
-/
import ApiSurface.Proofs.Interfaces.Constraints
import ApiSurface.Proofs.Interfaces.Generating

namespace ApiSurface

/-! ## Distinct names -/

theorem TypeRef.nodup_distinctAfter (seen : List String) (rs : List TypeRef) :
    ((distinctAfter seen rs).map canonicalName).Nodup ∧ ∀ r ∈ distinctAfter seen rs, r.canonicalName ∉ seen := by
  induction rs generalizing seen with
  | nil => exact ⟨List.nodup_nil, fun r hr => absurd hr List.not_mem_nil⟩
  | cons r rest ih =>
    rw [distinctAfter]
    split
    · exact ih seen
    · next hseen =>
      obtain ⟨hnodup, hfresh⟩ := ih (r.canonicalName :: seen)
      refine ⟨?_, fun q hq => ?_⟩
      · rw [List.map_cons, List.nodup_cons]
        refine ⟨fun hmem => ?_, hnodup⟩
        obtain ⟨q, hq, hname⟩ := List.mem_map.1 hmem
        exact hfresh q hq (hname ▸ List.mem_cons_self)
      · rcases List.mem_cons.1 hq with rfl | hq
        · simpa using hseen
        · exact fun hmem => hfresh q hq (List.mem_cons_of_mem _ hmem)

namespace FactSet

open TypeRef TypeFacts Resolving

/-! ## What is asked for -/

/-- the constraint says more than that the argument is a struct -/
def Counts (p : GenericFacts) (c : TypeRef) : Bool := !(p.valueType && c.canonicalName == valueTypeName)

/-- the first constraint that is a class -/
def classBound? (s : FactSet) (p : GenericFacts) : Option TypeRef := (p.constraints.filter (Counts p)).find? s.isClass

/-- something recorded is the interface or brings it in -/
def Gives (s : FactSet) (recorded : List TypeRef) (i : TypeRef) : Prop :=
  i ∈ recorded ∨ ∃ j ∈ recorded, i ∈ alone (s.allInterfaces j)

instance (s : FactSet) (recorded : List TypeRef) (i : TypeRef) : Decidable (s.Gives recorded i) :=
  inferInstanceAs (Decidable (_ ∨ _))

/-! ## What is collected -/

section

variable {isClass : TypeRef → Bool} {shown : TypeRef → List TypeRef} {valueType : Bool}

/-- a class bound that was found stays -/
theorem bound_partedBy_some (b : TypeRef) (constraints : List TypeRef) :
    (partedBy isClass shown valueType (some b) constraints).1 = some b := by
  induction constraints with
  | nil => rfl
  | cons c rest ih =>
    rw [partedBy]
    split
    · exact ih
    · rw [if_neg (by simp)]
      exact ih

/-- the class bound is the first constraint that counts and is a class -/
theorem bound_partedBy_none (constraints : List TypeRef) :
    (partedBy isClass shown valueType none constraints).1 =
      (constraints.filter fun c => !(valueType && c.canonicalName == valueTypeName)).find? isClass := by
  induction constraints with
  | nil => rfl
  | cons c rest ih =>
    rw [partedBy, List.filter_cons]
    cases valueType && c.canonicalName == valueTypeName with
    | true => exact ih
    | false =>
      rw [if_neg Bool.false_ne_true, Bool.not_false, if_pos rfl, List.find?_cons, Option.isNone_none, Bool.true_and]
      cases isClass c with
      | true => exact bound_partedBy_some c rest
      | false => exact ih

/-- a constraint that counts becomes the class bound, or what stands for it is collected -/
theorem shown_subset_partedBy (bound : Option TypeRef) {constraints : List TypeRef} {c : TypeRef} (hc : c ∈ constraints)
    (hcounts : (!(valueType && c.canonicalName == valueTypeName)) = true) :
    (partedBy isClass shown valueType bound constraints).1 = some c ∨
      shown c ⊆ (partedBy isClass shown valueType bound constraints).2 := by
  induction constraints generalizing bound with
  | nil => cases hc
  | cons c' rest ih =>
    rw [partedBy]
    rcases List.mem_cons.1 hc with rfl | hc
    · rw [Bool.not_eq_true'] at hcounts
      rw [hcounts, if_neg Bool.false_ne_true]
      split
      · exact Or.inl (bound_partedBy_some _ _)
      · exact Or.inr (List.subset_append_left _ _)
    · split_ifs
      · exact ih _ hc
      · exact ih _ hc
      · exact (ih _ hc).imp_right fun h => List.subset_append_of_subset_right _ h

end

variable {s : FactSet} {visible : TypeRef → Bool} {p : GenericFacts} {c i : TypeRef}

variable (visible) in
theorem collected_bound (hs : s.Acyclic) : (s.collected visible p).1 = s.classBound? p := by
  rw [collected, alone_partConstraints hs, bound_partedBy_none]
  rfl

/-- what a constraint stands for is collected, unless it is the class bound -/
theorem mem_collected_of_shown (hs : s.Acyclic) (htelling : NamesTell (s.surroundings p)) (hc : c ∈ p.constraints)
    (hcounts : Counts p c = true) (hi : i ∈ shownBy visible (s.via (s.lineage hs)) c) :
    s.classBound? p = some c ∨ i ∈ (s.collected visible p).2 := by
  rw [← collected_bound visible hs, collected, alone_partConstraints hs]
  refine (shown_subset_partedBy none hc hcounts).imp_right fun hshown => ?_
  -- names tell what is parted from the constraints, so no other entry takes its place
  rw [TypeRef.distinct_eq, List.mem_eraseDups]
  · exact hshown hi
  · have hsurrounds : ∀ x ∈ (partedBy s.isClass (shownBy visible (s.via (s.lineage hs))) p.valueType none p.constraints).2,
        x ∈ s.surroundings p := by
      intro x hx
      obtain ⟨d, hd, hshown⟩ := mem_partedBy hx
      exact mem_surroundings_of_shown hs hd hshown
    exact fun x hx y hy => htelling x (hsurrounds x hx) y (hsurrounds y hy)

/-! ## What is recorded -/

/-- a name that the class bound or a declaration brings in is that of the interface itself -/
theorem implied_iff (hs : s.Acyclic) (ho : s.Orderly) (htelling : NamesTell (s.surroundings p))
    (hi : i ∈ (s.collected visible p).2) (hfree : ∀ other ∈ (s.collected visible p).2, i ∉ s.via (s.lineage hs) other) :
    s.Implied visible p i ↔ ∃ base ∈ s.classBound? p, i ∈ s.via (s.lineage hs) base := by
  have hsurrounds : i ∈ s.surroundings p := (mem_collected hs hi).2
  rw [Implied, collected_bound visible hs]
  constructor
  · rintro (⟨base, hbase, hname⟩ | ⟨other, hother, -, hname⟩)
    · rw [alone_allInterfaces hs] at hname
      obtain ⟨j, hj, hname⟩ := List.mem_map.1 hname
      have hbound : base ∈ s.surroundings p :=
        List.mem_append_left _ (bound_mem_surroundings hs (collected_bound visible hs ▸ hbase))
      rw [htelling j (via_subset_surroundings hs ho hbound hj) i hsurrounds hname] at hj
      exact ⟨base, hbase, hj⟩
    · obtain ⟨j, hj, hname⟩ := List.mem_map.1 hname
      have hextended := declaredInterfaces_subset hs ho other hj
      have hothers := via_subset_surroundings hs ho (mem_collected hs hother).2 hextended
      rw [htelling j hothers i hsurrounds hname] at hextended
      exact absurd hextended (hfree other hother)
  · rintro ⟨base, hbase, hmem⟩
    exact Or.inl ⟨base, hbase, alone_allInterfaces hs base ▸ List.mem_map_of_mem hmem⟩

/-- **Nothing is lost.** What is collected is recorded, or brought in by something recorded. -/
theorem recorded_or_brought (hs : s.Acyclic) (ho : s.Orderly) (htelling : NamesTell (s.surroundings p))
    (hi : i ∈ (s.collected visible p).2) : s.Gives (alone (s.constraintSet visible p)) i := by
  obtain ⟨j, hj, habove, hfree⟩ := exists_uppermost hs ho hi
  have hrecorded : alone (s.constraintSet visible p) = (s.classBound? p).toList ++
      (s.collected visible p).2.filter fun r => decide ¬s.Implied visible p r := by
    rw [alone_constraintSet hs, collected_bound visible hs]
  have hgives : ∀ k ∈ alone (s.constraintSet visible p), i = k ∨ i ∈ s.via (s.lineage hs) k →
      s.Gives (alone (s.constraintSet visible p)) i := by
    rintro k hk (rfl | hbrought)
    · exact Or.inl hk
    · exact Or.inr ⟨k, hk, alone_allInterfaces hs k ▸ hbrought⟩
  by_cases himplied : s.Implied visible p j
  · -- nothing that was collected extends the uppermost one, so the class bound does
    obtain ⟨base, hbase, hj⟩ := (implied_iff hs ho htelling hj hfree).1 himplied
    have hmem : base ∈ alone (s.constraintSet visible p) := by
      rw [hrecorded]
      exact List.mem_append_left _ (Option.mem_toList.2 hbase)
    refine hgives base hmem (Or.inr ?_)
    rcases habove with rfl | habove
    · exact hj
    · exact via_subset ho hj habove
  · refine hgives j ?_ habove
    rw [hrecorded]
    exact List.mem_append_right _ (List.mem_filter.2 ⟨hj, decide_eq_true himplied⟩)

/-- **Pruning constraints loses no requirement.** In an orderly hierarchy, what is recorded of a generic parameter is its class
bound, if it has one, and after that visible references of distinct names, which are constraints or what hidden constraints
bring in. Every visible constraint, and whatever is visible of what a hidden one brings in, is recorded or brought in by
something recorded. -/
theorem constraintSet_gives (hs : s.Acyclic) (ho : s.Orderly) (visible : TypeRef → Bool) (p : GenericFacts)
    (htelling : NamesTell (s.surroundings p)) :
    let recorded := alone (s.constraintSet visible p)
    (∃ entries, recorded = (s.classBound? p).toList ++ entries ∧ (∀ i ∈ entries, visible i = true) ∧
      (entries.map canonicalName).Nodup ∧
      ∀ i ∈ entries, i ∈ p.constraints ∨ ∃ c ∈ p.constraints, visible c = false ∧ i ∈ alone (s.allInterfaces c)) ∧
      ∀ c ∈ p.constraints, Counts p c = true → (visible c = true → s.Gives recorded c) ∧
        (visible c = false → ∀ i ∈ alone (s.allInterfaces c), visible i = true → s.Gives recorded i) := by
  intro recorded
  have hentries : recorded = (s.classBound? p).toList ++
      (s.collected visible p).2.filter fun r => decide ¬s.Implied visible p r := by
    rw [← collected_bound visible hs]
    exact alone_constraintSet hs p
  refine ⟨⟨_, hentries, ?_, ?_, ?_⟩, fun c hc hcounts => ?_⟩
  · exact fun i hi => (mem_collected hs (List.mem_of_mem_filter hi)).1
  · exact (nodup_distinctAfter [] _).1.sublist (List.filter_sublist.map canonicalName)
  · intro i hi
    obtain ⟨c, hc, hshown⟩ := exists_shown hs (List.mem_of_mem_filter hi)
    rcases (mem_shownBy.1 hshown).2 with rfl | ⟨hhidden, hmem⟩
    · exact Or.inl hc
    · exact Or.inr ⟨c, hc, hhidden, alone_allInterfaces hs c ▸ hmem⟩
  · have hgiven : ∀ i ∈ shownBy visible (s.via (s.lineage hs)) c, s.Gives recorded i := by
      intro i hi
      rcases mem_collected_of_shown hs htelling hc hcounts hi with hbound | hcollected
      · have hrecorded : c ∈ recorded := by
          rw [hentries, hbound]
          exact List.mem_cons_self
        rcases (mem_shownBy.1 hi).2 with rfl | ⟨-, hmem⟩
        · exact Or.inl hrecorded
        · exact Or.inr ⟨c, hrecorded, alone_allInterfaces hs c ▸ hmem⟩
      · exact recorded_or_brought hs ho htelling hcollected
    refine ⟨fun hshown => hgiven c (mem_shownBy.2 ⟨hshown, Or.inl rfl⟩), fun hhidden i hi hshown => ?_⟩
    rw [alone_allInterfaces hs] at hi
    exact hgiven i (mem_shownBy.2 ⟨hshown, Or.inr ⟨hhidden, hi⟩⟩)

/-- a grid of circles, circles that are kept by way of a hidden interface, and an album with a name -/
def exhibits : FactSet where
  identity := "Shapes"
  entries := [
    bareType .interfaceType .pub (.topLevel "" "IShape") [],
    bareType .interfaceType .pub (interfaceOf "IList" typeT) [.topLevel "" "IShape"],
    bareType .interfaceType .internal (interfaceOf "IHidden" typeT) [interfaceOf "IList" typeT],
    bareType .interfaceType .pub (.topLevel "" "INamed") [],
    bareType .interfaceType .pub (.topLevel "" "IGrid") [interfaceOf "IList" (.topLevel "" "Circle")],
    bareType .classType .pub (.topLevel "" "Album") [.topLevel "" "INamed"]]

/-- the album gives the name, and the grid the list, for which the shape was left out -/
theorem constraintSet_gives_exhibits :
    let p := constrained [.topLevel "" "IShape", .topLevel "" "Album", interfaceOf "IHidden" (.topLevel "" "Circle"),
      .topLevel "" "INamed", .topLevel "" "IGrid"]
    let recorded := alone (exhibits.constraintSet unhidden p)
    exhibits.Acyclic ∧ exhibits.Orderly ∧ NamesTell (exhibits.surroundings p) ∧
      recorded = [.topLevel "" "Album", .topLevel "" "IGrid"] ∧ exhibits.Gives recorded (.topLevel "" "IShape") ∧
      exhibits.Gives recorded (interfaceOf "IList" (.topLevel "" "Circle")) ∧
      exhibits.Gives recorded (.topLevel "" "INamed") := by
  intro p recorded
  have hacyclic : exhibits.Acyclic := acyclic_of_earlier (by decide)
  have htelling := telling_of_lists (s := exhibits)
    [[], [.topLevel "" "IShape"], [interfaceOf "IList" typeT, .topLevel "" "IShape"], [],
      [interfaceOf "IList" (.topLevel "" "Circle"), .topLevel "" "IShape"], [.topLevel "" "INamed"]]
    (by decide) (by decide)
  have horderly : exhibits.Orderly := ⟨of_facts? (by decide), of_facts? (by decide), htelling⟩
  have hnames : NamesTell (exhibits.surroundings p) := by decide
  obtain ⟨-, hgiven⟩ := constraintSet_gives hacyclic horderly unhidden p hnames
  refine ⟨hacyclic, horderly, hnames, by decide, ?_, ?_, ?_⟩
  · exact (hgiven (.topLevel "" "IShape") (by decide) (by decide)).1 (by decide)
  · exact (hgiven (interfaceOf "IHidden" (.topLevel "" "Circle")) (by decide) (by decide)).2 (by decide) _ (by decide)
      (by decide)
  · exact (hgiven (.topLevel "" "INamed") (by decide) (by decide)).1 (by decide)

/-- a view that declares its argument, an interface with the name of the base of all structs, and two classes -/
def studies : FactSet where
  identity := "Shapes"
  entries := [
    bareType .interfaceType .pub (.topLevel "" "IShape") [],
    bareType .interfaceType .pub (.topLevel "" "ICircle") [.topLevel "" "IShape"],
    bareType .interfaceType .pub (interfaceOf "IView" typeT) [typeT],
    bareType .interfaceType .pub (.topLevel "System" "ValueType") [],
    bareType .classType .pub (.topLevel "" "Drawing") [],
    bareType .classType .pub (.topLevel "" "Canvas") []]

/-- **What may be lost, and what may be recorded.** A view of circles declares the circle, which is left out for it, and the
shape is left out for the circle; but the view gives no shape. Under a struct constraint what is called like the base of all
structs is passed over, interface or not. And a class that is not the first is recorded along with the interfaces. -/
theorem requirement_lost :
    let shown : TypeRef → Bool := fun _ => true
    let viewed := constrained [interfaceOf "IView" (.topLevel "" "ICircle"), .topLevel "" "ICircle", .topLevel "" "IShape"]
    let value : GenericFacts := { constrained [.topLevel "System" "ValueType"] with valueType := true }
    let drawn := constrained [.topLevel "" "Drawing", .topLevel "" "Canvas"]
    studies.Acyclic ∧ (∀ h facts, studies.facts? h = some facts → ∀ r ∈ facts.supers, studies.Supplies r) ∧
      (∀ h i j, studies.Brings h i → studies.Brings h j → i.canonicalName = j.canonicalName → i = j) ∧
      (∀ p ∈ [viewed, value, drawn], NamesTell (studies.surroundings p) ∧ ∀ c ∈ p.constraints, studies.Supplies c) ∧
      (studies.isClass (.topLevel "" "IShape") = false ∧
        ¬studies.Gives (alone (studies.constraintSet shown viewed)) (.topLevel "" "IShape")) ∧
      (studies.isClass (.topLevel "System" "ValueType") = false ∧
        ¬studies.Gives (alone (studies.constraintSet shown value)) (.topLevel "System" "ValueType")) ∧
      (alone (studies.constraintSet shown drawn) = [.topLevel "" "Drawing", .topLevel "" "Canvas"] ∧
        studies.isClass (.topLevel "" "Canvas") = true) := by
  have htelling := telling_of_lists (s := studies) [[], [.topLevel "" "IShape"], [typeT], [], [], []] (by decide) (by decide)
  exact ⟨acyclic_of_earlier (by decide), of_facts? (by decide), htelling, by decide, by decide, by decide, by decide⟩

end FactSet

end ApiSurface
