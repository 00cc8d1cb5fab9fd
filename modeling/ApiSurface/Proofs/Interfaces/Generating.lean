/-
What an interface lists, against all that it extends.

An interface lists the visible ones among its interfaces that no other visible one extends. Extending goes down in the
definition graph, so above every interface that is left out there is an uppermost one; no other one extends that, so it is
listed. It extends what it stands above, because extending is transitive where arguments are put in.

`exists_uppermost`: the uppermost interface.
`mem_directInterfaces_interface_iff`: what is listed.
`directInterfaces_generate`: the listed interfaces are visible, none extends another, and together they give all that is
visible.
-/
import ApiSurface.Proofs.Interfaces.Rerouting

namespace ApiSurface.FactSet

open Resolving TypeRef

variable {s : FactSet} {hs : s.Acyclic} {t : TypeHandle} {facts : TypeFacts} {i j : TypeRef}

/-! ## Uppermost interfaces -/

/-- the place of a reference in the definition graph: above all that it extends, and lowest when nothing is known of it -/
noncomputable def rank (s : FactSet) (r : TypeRef) : Nat := (s.resolve r).elim 0 fun k => s.height k + 1

theorem rank_lt (ho : s.Orderly) (hi : i ∈ s.via (s.lineage hs) j) : s.rank i < s.rank j := by
  obtain ⟨k, hk, l, hl, rfl⟩ := mem_via.1 hi
  have hbrings : s.Brings k l := brings_of_mem_lineage hl
  rw [rank, rank, hk, resolve_substitute _ (hbrings.isPlaceholder ho), Option.elim_some]
  cases hm : s.resolve l with
  | none => exact Nat.succ_pos _
  | some m => exact Nat.succ_lt_succ (height_lt_of_transGen hs (hbrings.transGen ho hm))

theorem not_mem_via_self (ho : s.Orderly) (i : TypeRef) : i ∉ s.via (s.lineage hs) i := fun hi =>
  Nat.lt_irrefl _ (rank_lt ho hi)

/-- above each of some interfaces, or at it, stands one that no other of them extends -/
theorem exists_uppermost (hs : s.Acyclic) (ho : s.Orderly) {interfaces : List TypeRef} (hi : i ∈ interfaces) :
    ∃ j ∈ interfaces, (i = j ∨ i ∈ s.via (s.lineage hs) j) ∧ ∀ other ∈ interfaces, j ∉ s.via (s.lineage hs) other := by
  have hfinite : {j | j ∈ interfaces ∧ (i = j ∨ i ∈ s.via (s.lineage hs) j)}.Finite :=
    (List.finite_toSet interfaces).subset fun _ hj => hj.1
  obtain ⟨j, ⟨hj, habove⟩, hmax⟩ := Set.exists_max_image _ s.rank hfinite ⟨i, hi, Or.inl rfl⟩
  refine ⟨j, hj, habove, fun other hother hextended => ?_⟩
  -- one that extends `j` stands above `i` as well, and higher
  have hstands : i ∈ s.via (s.lineage hs) other := by
    rcases habove with rfl | habove
    · exact hextended
    · exact via_subset ho hextended habove
  exact absurd (rank_lt ho hextended) (Nat.not_lt.2 (hmax other ⟨hother, Or.inr hstands⟩))

/-! ## Listed interfaces -/

variable {visible : TypeRef → Bool}

/-- an interface lists the visible interfaces that no visible one extends -/
theorem mem_directInterfaces_interface_iff (hs : s.Acyclic) (ho : s.Orderly) (hfacts : s.facts? t = some facts)
    (hkind : facts.kind = .interfaceType) :
    i ∈ alone (s.directInterfaces visible t) ↔ i ∈ (s.lineage hs t).filter visible ∧
      ∀ other ∈ (s.lineage hs t).filter visible, i ∉ s.via (s.lineage hs) other := by
  have hlisted : Answers hs _ _ _ := answers_directInterfaces_interface visible hfacts hkind
  rw [hlisted.alone_eq, withoutImplied_map, List.mem_filter]
  refine and_congr_right fun hi => ?_
  have hbrings : ∀ x ∈ (s.lineage hs t).filter visible, s.Brings t x := fun x hx =>
    brings_of_mem_lineage (List.mem_filter.1 hx).1
  rw [Bool.not_eq_true', ← Bool.not_eq_true, List.any_eq_true, not_exists]
  refine forall_congr' fun other => ?_
  rw [not_and]
  refine forall_congr' fun hother => ?_
  rw [Bool.and_eq_true, bne_iff_ne, contains_name_iff ho (fun x hx => (hbrings other hother).of_mem_via ho hx) (hbrings i hi),
    not_and]
  constructor
  · intro hpruned hextended
    -- an interface of the same name would be the same one, which does not extend itself
    refine hpruned (fun hname => ?_) hextended
    rw [ho.telling t other i (hbrings other hother) (hbrings i hi) hname] at hextended
    exact not_mem_via_self ho i hextended
  · exact fun hfree _ => hfree

/-- **A minimal generating set.** What an interface of an orderly hierarchy lists is a part of its interfaces, in their
order, and visible. No listed one extends a listed one, and every visible one is listed or extended by a listed one. -/
theorem directInterfaces_generate (hs : s.Acyclic) (ho : s.Orderly) (visible : TypeRef → Bool)
    (hfacts : s.facts? t = some facts) (hkind : facts.kind = .interfaceType) :
    (alone (s.directInterfaces visible t)).Sublist (alone (s.closure t)) ∧
      (∀ i ∈ alone (s.directInterfaces visible t), visible i = true) ∧
      (∀ i ∈ alone (s.directInterfaces visible t), ∀ j ∈ alone (s.directInterfaces visible t),
        i ∉ alone (s.allInterfaces j)) ∧
      ∀ i ∈ alone (s.closure t), visible i = true →
        i ∈ alone (s.directInterfaces visible t) ∨
          ∃ j ∈ alone (s.directInterfaces visible t), i ∈ alone (s.allInterfaces j) := by
  have hclosure : alone (s.closure t) = s.lineage hs t := (answers_closure t).alone_eq
  have hvia : ∀ r, alone (s.allInterfaces r) = s.via (s.lineage hs) r := fun r => (answers_allInterfaces r).alone_eq
  have hlisted : Answers hs _ _ _ := answers_directInterfaces_interface visible hfacts hkind
  have hmem : ∀ i, i ∈ alone (s.directInterfaces visible t) ↔ i ∈ (s.lineage hs t).filter visible ∧
      ∀ other ∈ (s.lineage hs t).filter visible, i ∉ s.via (s.lineage hs) other :=
    fun i => mem_directInterfaces_interface_iff hs ho hfacts hkind
  refine ⟨?_, ?_, ?_, ?_⟩
  · rw [hclosure, hlisted.alone_eq, withoutImplied_map]
    exact List.filter_sublist.trans List.filter_sublist
  · exact fun i hi => (List.mem_filter.1 ((hmem i).1 hi).1).2
  · intro i hi j hj
    rw [hvia]
    exact ((hmem i).1 hi).2 j ((hmem j).1 hj).1
  · intro i hi hshown
    rw [hclosure] at hi
    obtain ⟨j, hj, habove, hfree⟩ := exists_uppermost hs ho (List.mem_filter.2 ⟨hi, hshown⟩)
    have hj' : j ∈ alone (s.directInterfaces visible t) := (hmem j).2 ⟨hj, hfree⟩
    rcases habove with rfl | habove
    · exact Or.inl hj'
    · exact Or.inr ⟨j, hj', (hvia j).symm ▸ habove⟩

/-- a gallery of circles, which are kept by way of a hidden interface -/
def galleries : FactSet where
  identity := "Shapes"
  entries := [
    bareType .interfaceType .pub (.topLevel "" "IShape") [],
    bareType .interfaceType .pub (interfaceOf "IList" typeT) [.topLevel "" "IShape"],
    bareType .interfaceType .internal (interfaceOf "IHidden" typeT) [interfaceOf "IList" typeT],
    bareType .interfaceType .pub (.topLevel "" "INamed") [],
    bareType .interfaceType .pub (.topLevel "" "IGallery")
      [.topLevel "" "IShape", interfaceOf "IHidden" (.topLevel "" "Circle"), .topLevel "" "INamed"]]

/-- it lists the list, which gives shapes, and the name -/
theorem directInterfaces_generate_galleries :
    galleries.Orderly ∧
      alone (galleries.directInterfaces unhidden ⟨4⟩) = [interfaceOf "IList" (.topLevel "" "Circle"), .topLevel "" "INamed"] ∧
      ∀ i ∈ alone (galleries.closure ⟨4⟩), unhidden i = true →
        i ∈ alone (galleries.directInterfaces unhidden ⟨4⟩) ∨
          ∃ j ∈ alone (galleries.directInterfaces unhidden ⟨4⟩), i ∈ alone (galleries.allInterfaces j) := by
  have htelling := telling_of_lists (s := galleries)
    [[], [.topLevel "" "IShape"], [interfaceOf "IList" typeT, .topLevel "" "IShape"], [],
      [.topLevel "" "IShape", interfaceOf "IHidden" (.topLevel "" "Circle"), interfaceOf "IList" (.topLevel "" "Circle"),
        .topLevel "" "INamed"]]
    (by decide) (by decide)
  have horderly : galleries.Orderly := ⟨of_facts? (by decide), of_facts? (by decide), htelling⟩
  obtain ⟨-, -, -, hcovered⟩ :=
    directInterfaces_generate (t := ⟨4⟩) (acyclic_of_earlier (by decide)) horderly unhidden rfl rfl
  exact ⟨horderly, by decide, hcovered⟩

/-- an interface whose argument stands for an interface that it declares -/
def sketches : FactSet where
  identity := "Shapes"
  entries := [
    bareType .interfaceType .pub (.topLevel "" "IShape") [],
    bareType .interfaceType .pub (.topLevel "" "ICircle") [.topLevel "" "IShape"],
    bareType .interfaceType .pub (interfaceOf "IView" typeT) [typeT],
    bareType .interfaceType .pub (.topLevel "" "ISketch")
      [interfaceOf "IView" (.topLevel "" "ICircle"), .topLevel "" "IShape"]]

/-- **A type parameter hides what its argument extends.** The view extends the circle and nothing that the circle extends,
while the circle, which the view leaves out, leaves out the shape. -/
theorem placeholder_not_generated :
    sketches.Acyclic ∧ (∀ h facts, sketches.facts? h = some facts → ∀ r ∈ facts.supers, sketches.Supplies r) ∧
      (∀ h i j, sketches.Brings h i → sketches.Brings h j → i.canonicalName = j.canonicalName → i = j) ∧
      (sketches.facts? ⟨3⟩).map TypeFacts.kind = some .interfaceType ∧
      .topLevel "" "IShape" ∈ alone (sketches.closure ⟨3⟩) ∧
      ¬(.topLevel "" "IShape" ∈ alone (sketches.directInterfaces (fun _ => true) ⟨3⟩) ∨
        ∃ j ∈ alone (sketches.directInterfaces (fun _ => true) ⟨3⟩),
          .topLevel "" "IShape" ∈ alone (sketches.allInterfaces j)) := by
  have htelling := telling_of_lists (s := sketches)
    [[], [.topLevel "" "IShape"], [typeT],
      [interfaceOf "IView" (.topLevel "" "ICircle"), .topLevel "" "ICircle", .topLevel "" "IShape"]]
    (by decide) (by decide)
  exact ⟨acyclic_of_earlier (by decide), of_facts? (by decide), htelling, rfl, by decide, by decide⟩

end ApiSurface.FactSet
