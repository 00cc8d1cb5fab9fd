/-
What the interface lists of an orderly hierarchy hold.

A definition brings in the interfaces it declares and whatever the definitions behind its interfaces and its base type bring
in, with the arguments put in. In an orderly hierarchy references supply the arguments that definitions use, no declared
interface is a type parameter, and names tell the references apart that one definition brings in.

`Brings.trans`: what an interface that is brought in brings in is brought in.
`via_substitute`: the interfaces of a reference with arguments put in are its interfaces with the arguments put in.
`expand_lineage`: following each listed interface by those it extends changes nothing but repetitions, hidden ones or not.
-/
import ApiSurface.Proofs.Interfaces.Firsts
import ApiSurface.Proofs.Interfaces.Lineage
import ApiSurface.Proofs.TypeRef.Substitution

namespace ApiSurface.FactSet

open TypeRef TypeFacts

/-! ## Orderly hierarchies -/

/-- the definition brings in the interface, in terms of its own parameters -/
inductive Brings (s : FactSet) : TypeHandle → TypeRef → Prop
  | declared {h : TypeHandle} {facts : TypeFacts} {i : TypeRef} (hfacts : s.facts? h = some facts)
      (hi : i ∈ facts.interfaces) : Brings s h i
  | extended {h k : TypeHandle} {facts : TypeFacts} {r i : TypeRef} (hfacts : s.facts? h = some facts)
      (hr : r ∈ facts.supers) (hk : s.resolve r = some k) (hi : Brings s k i) :
      Brings s h (i.substitute r.withoutByRef.arguments)

/-- the reference has an argument for every position that its definition uses -/
def Supplies (s : FactSet) (r : TypeRef) : Prop :=
  ∀ facts, s.definition? r = some facts → ∀ q ∈ facts.supers, ∀ p ∈ q.positions, p < r.withoutByRef.arguments.length

instance (s : FactSet) (r : TypeRef) : Decidable (s.Supplies r) :=
  inferInstanceAs (Decidable (∀ facts ∈ s.definition? r, ∀ q ∈ facts.supers, ∀ p ∈ q.positions,
    p < r.withoutByRef.arguments.length))

structure Orderly (s : FactSet) : Prop where
  supplied : ∀ h facts, s.facts? h = some facts → ∀ r ∈ facts.supers, s.Supplies r
  concrete : ∀ h facts, s.facts? h = some facts → ∀ i ∈ facts.interfaces, i.isPlaceholder = false
  telling : ∀ h i j, s.Brings h i → s.Brings h j → i.canonicalName = j.canonicalName → i = j

variable {s : FactSet} {h k : TypeHandle} {facts : TypeFacts} {r i j : TypeRef}

theorem definition?_of_resolve (hk : s.resolve r = some k) : s.definition? r = s.facts? k := by
  rw [definition?, hk, Option.bind_some]

/-- putting arguments in leaves the definition -/
theorem resolve_substitute (arguments : List TypeRef) (hr : r.isPlaceholder = false) :
    s.resolve (r.substitute arguments) = s.resolve r := by
  rw [resolve, resolve, withoutByRef_substitute arguments hr,
    definitionKey?_substitute arguments (isPlaceholder_withoutByRef hr)]

theorem Supplies.substitute (arguments : List TypeRef) (hr : r.isPlaceholder = false) (h : s.Supplies r) :
    s.Supplies (r.substitute arguments) := by
  intro facts hfacts q hq p hp
  rw [definition?, resolve_substitute arguments hr] at hfacts
  rw [arguments_substitute arguments hr, List.length_map]
  exact h facts hfacts q hq p hp

namespace Brings

variable (ho : s.Orderly)
include ho

theorem isPlaceholder (hi : s.Brings h i) : i.isPlaceholder = false := by
  induction hi with
  | declared hfacts hi => exact ho.concrete _ _ hfacts _ hi
  | extended _ _ _ _ ih => exact isPlaceholder_substitute _ ih

/-- all positions of what a definition brings in are positions that it uses -/
theorem positions (hi : s.Brings h i) : ∀ p ∈ i.positions, ∃ facts, s.facts? h = some facts ∧
    ∃ q ∈ facts.supers, p ∈ q.positions := by
  induction hi with
  | declared hfacts hi => exact fun p hp => ⟨_, hfacts, _, mem_supers.2 (Or.inl hi), hp⟩
  | @extended h k facts r i hfacts hr hk hi ih =>
    intro p hp
    have hcovered : ∀ q ∈ i.positions, q < r.withoutByRef.arguments.length := by
      intro q hq
      obtain ⟨facts', hfacts', q', hq', hmem⟩ := ih q hq
      exact ho.supplied h facts hfacts r hr facts' ((definition?_of_resolve hk).trans hfacts') q' hq' q hmem
    obtain ⟨a, ha, hpa⟩ := mem_positions_substitute hcovered hp
    exact ⟨facts, hfacts, r, hr, mem_positions_of_argument ha hpa⟩

/-- so a reference to the definition has an argument for each of them -/
theorem covered (hi : s.Brings k i) (hk : s.resolve r = some k) (hr : s.Supplies r) :
    ∀ p ∈ i.positions, p < r.withoutByRef.arguments.length := by
  intro p hp
  obtain ⟨facts, hfacts, q, hq, hmem⟩ := hi.positions ho p hp
  exact hr facts ((definition?_of_resolve hk).trans hfacts) q hq p hmem

theorem supplies (hi : s.Brings h i) : s.Supplies i := by
  induction hi with
  | declared hfacts hi => exact ho.supplied _ _ hfacts _ (mem_supers.2 (Or.inl hi))
  | extended _ _ _ hi ih => exact ih.substitute _ (hi.isPlaceholder ho)

/-- **What is brought in brings in.** -/
theorem trans (hi : s.Brings h i) (hk : s.resolve i = some k) (hj : s.Brings k j) :
    s.Brings h (j.substitute i.withoutByRef.arguments) := by
  induction hi with
  | declared hfacts hi => exact extended hfacts (mem_supers.2 (Or.inl hi)) hk hj
  | @extended h m facts r i hfacts hr hm hi ih =>
    have hplain := hi.isPlaceholder ho
    rw [resolve_substitute _ hplain] at hk
    rw [arguments_substitute _ hplain, ← substitute_substitute _ _ _ (hj.covered ho hk (hi.supplies ho))]
    exact extended hfacts hr hm (ih hk)

/-- a definition leads to those of the interfaces it brings in -/
theorem transGen (hi : s.Brings h i) (hk : s.resolve i = some k) : Relation.TransGen s.Leads h k := by
  induction hi with
  | declared hfacts hi => exact .single (leads_of_resolve hfacts (mem_supers.2 (Or.inl hi)) hk)
  | extended hfacts hr hm hi ih =>
    rw [resolve_substitute _ (hi.isPlaceholder ho)] at hk
    exact .head (leads_of_resolve hfacts hr hm) (ih hk)

end Brings

/-- what brings in interfaces is known -/
theorem Brings.facts?_isSome (hi : s.Brings h i) : ∃ facts, s.facts? h = some facts := by
  cases hi with
  | declared hfacts => exact ⟨_, hfacts⟩
  | extended hfacts => exact ⟨_, hfacts⟩

/-- any lists that hold what gathering from them gives hold all that is brought in -/
theorem Brings.mem_of_gathered {all : TypeHandle → List TypeRef} (hall : ∀ h, s.gathered all h ⊆ all h)
    (hi : s.Brings h i) : i ∈ all h := by
  induction hi with
  | declared hfacts hi =>
    apply hall
    rw [gathered, hfacts]
    exact List.mem_append_left _ (List.mem_flatMap.2 ⟨_, hi, List.mem_cons_self⟩)
  | @extended h k facts r i hfacts hr hk _ ih =>
    have hvia : i.substitute r.withoutByRef.arguments ∈ s.via all r := by
      rw [via_of_resolve all hk]
      exact List.mem_map_of_mem ih
    apply hall
    rw [gathered, hfacts]
    rcases mem_supers.1 hr with hr | hr
    · exact List.mem_append_left _ (List.mem_flatMap.2 ⟨r, hr, List.mem_cons_of_mem _ hvia⟩)
    · exact List.mem_append_right _ (List.mem_flatMap.2 ⟨r, Option.mem_toList.2 hr, hvia⟩)

/-- names tell what a definition brings in when they tell in lists that hold what gathering from them gives -/
theorem telling_of_lists (lists : List (List TypeRef))
    (hgathered : ∀ index < s.entries.length, s.gathered (fun h => lists.getD h.index []) ⟨index⟩ ⊆ lists.getD index [])
    (htell : ∀ index < s.entries.length, NamesTell (lists.getD index [])) :
    ∀ h i j, s.Brings h i → s.Brings h j → i.canonicalName = j.canonicalName → i = j := by
  have hall : ∀ h, s.gathered (fun h => lists.getD h.index []) h ⊆ lists.getD h.index [] := by
    intro h
    cases hfacts : s.facts? h with
    | none =>
      rw [gathered, hfacts]
      exact List.nil_subset _
    | some facts => exact hgathered h.index (index_lt_of_facts? hfacts)
  intro h i j hi hj hname
  obtain ⟨facts, hfacts⟩ := hi.facts?_isSome
  exact htell h.index (index_lt_of_facts? hfacts) i (hi.mem_of_gathered hall) j (hj.mem_of_gathered hall) hname

/-! ## Interface lists -/

variable {hs : s.Acyclic}

theorem mem_via {all : TypeHandle → List TypeRef} :
    i ∈ s.via all r ↔ ∃ k, s.resolve r = some k ∧ ∃ j ∈ all k, j.substitute r.withoutByRef.arguments = i := by
  unfold via
  cases hr : s.resolve r with
  | none => simp
  | some k => simp

/-- what is gathered is brought in, when what it is gathered from is -/
theorem brings_of_mem_gathered {all : TypeHandle → List TypeRef} (hall : ∀ k, s.Leads h k → ∀ j ∈ all k, s.Brings k j)
    (hi : i ∈ s.gathered all h) : s.Brings h i := by
  unfold gathered at hi
  cases hfacts : s.facts? h with
  | none => simp [hfacts] at hi
  | some facts =>
    have hvia : ∀ r ∈ facts.supers, i ∈ s.via all r → s.Brings h i := by
      intro r hr hmem
      obtain ⟨k, hk, j, hj, rfl⟩ := mem_via.1 hmem
      exact .extended hfacts hr hk (hall k (leads_of_resolve hfacts hr hk) j hj)
    rw [hfacts] at hi
    rcases List.mem_append.1 hi with hi | hi
    · obtain ⟨r, hr, hi⟩ := List.mem_flatMap.1 hi
      rcases List.mem_cons.1 hi with rfl | hi
      · exact .declared hfacts hr
      · exact hvia r (mem_supers.2 (Or.inl hr)) hi
    · obtain ⟨r, hr, hi⟩ := List.mem_flatMap.1 hi
      exact hvia r (mem_supers.2 (Or.inr (Option.mem_toList.1 hr))) hi

theorem mem_of_mem_distinctAfter {seen : List String} {rs : List TypeRef} (hr : r ∈ distinctAfter seen rs) : r ∈ rs := by
  induction rs generalizing seen with
  | nil => cases hr
  | cons q rest ih =>
    unfold distinctAfter at hr
    split at hr
    · exact List.mem_cons_of_mem _ (ih hr)
    · rcases List.mem_cons.1 hr with rfl | hr
      · exact List.mem_cons_self
      · exact List.mem_cons_of_mem _ (ih hr)

theorem brings_of_mem_lineage (hi : i ∈ s.lineage hs h) : s.Brings h i := by
  induction h using hs.induction generalizing i with
  | step h ih =>
    rw [lineage_eq] at hi
    exact brings_of_mem_gathered (fun k hk j hj => ih k (.single hk) hj) (mem_of_mem_distinctAfter hi)

/-- in an orderly hierarchy the list of a definition is what is gathered, less repetitions -/
theorem lineage_eq_eraseDups (ho : s.Orderly) (h : TypeHandle) :
    s.lineage hs h = (s.gathered (s.lineage hs) h).eraseDups := by
  rw [lineage_eq]
  refine distinct_eq fun i hi j hj hname => ho.telling h i j ?_ ?_ hname
  · exact brings_of_mem_gathered (fun k _ l hl => brings_of_mem_lineage hl) hi
  · exact brings_of_mem_gathered (fun k _ l hl => brings_of_mem_lineage hl) hj

theorem lineage_sameFirsts (ho : s.Orderly) (h : TypeHandle) :
    SameFirsts (s.lineage hs h) (s.gathered (s.lineage hs) h) := by
  rw [lineage_eq_eraseDups ho]
  exact SameFirsts.eraseDups _

/-- what comes through something that is brought in is brought in -/
theorem Brings.of_mem_via (ho : s.Orderly) (hi : s.Brings h i) (hj : j ∈ s.via (s.lineage hs) i) : s.Brings h j := by
  obtain ⟨k, hk, l, hl, rfl⟩ := mem_via.1 hj
  exact hi.trans ho hk (brings_of_mem_lineage hl)

/-- so it is through what brings in interfaces itself -/
theorem brings_of_mem_via (hfacts : s.facts? h = some facts) (hr : r ∈ facts.supers)
    (hj : j ∈ s.via (s.lineage hs) r) : s.Brings h j := by
  obtain ⟨k, hk, l, hl, rfl⟩ := mem_via.1 hj
  exact .extended hfacts hr hk (brings_of_mem_lineage hl)

/-- **Arguments put in.** -/
theorem via_substitute (ho : s.Orderly) (arguments : List TypeRef) (hr : r.isPlaceholder = false) (hsupplies : s.Supplies r) :
    s.via (s.lineage hs) (r.substitute arguments) = (s.via (s.lineage hs) r).map (substitute arguments) := by
  unfold via
  rw [resolve_substitute arguments hr]
  cases hk : s.resolve r with
  | none => rfl
  | some k =>
    dsimp only
    rw [List.map_map, arguments_substitute arguments hr]
    apply List.map_congr_left
    intro i hi
    exact (substitute_substitute _ _ _ ((brings_of_mem_lineage hi).covered ho hk hsupplies)).symm

/-! ## Showing some of the interfaces -/

/-- the verdict on a reference that is no type parameter does not depend on its arguments -/
def Stable (keep : TypeRef → Bool) : Prop :=
  ∀ r arguments, r.isPlaceholder = false → keep (r.substitute arguments) = keep r

variable {keep : TypeRef → Bool}

theorem filter_via (hkeep : Stable keep) {all : TypeHandle → List TypeRef}
    (hall : ∀ k, ∀ i ∈ all k, i.isPlaceholder = false) (r : TypeRef) :
    (s.via all r).filter keep = s.via (fun k => (all k).filter keep) r := by
  unfold via
  cases hk : s.resolve r with
  | none => rfl
  | some k =>
    dsimp only
    rw [List.filter_map]
    congr 1
    apply List.filter_congr
    intro i hi
    exact hkeep i _ (hall k i hi)

theorem lineage_concrete (ho : s.Orderly) : ∀ k, ∀ i ∈ s.lineage hs k, i.isPlaceholder = false :=
  fun _ _ hi => (brings_of_mem_lineage hi).isPlaceholder ho

/-- following the interfaces of a list by those they extend gives nothing new -/
def Expanded (f : TypeRef → List TypeRef) (xs : List TypeRef) : Prop := SameFirsts (xs.flatMap f) xs

theorem Expanded.append {f : TypeRef → List TypeRef} {xs ys : List TypeRef} (hxs : Expanded f xs) (hys : Expanded f ys) :
    Expanded f (xs ++ ys) := by
  unfold Expanded
  rw [List.flatMap_append]
  exact SameFirsts.append hxs hys

theorem Expanded.flatMap {f g : TypeRef → List TypeRef} {xs : List TypeRef} (h : ∀ x ∈ xs, Expanded f (g x)) :
    Expanded f (xs.flatMap g) := by
  induction xs with
  | nil => exact SameFirsts.refl _
  | cons x rest ih =>
    rw [List.flatMap_cons]
    exact (h x List.mem_cons_self).append (ih fun y hy => h y (List.mem_cons_of_mem _ hy))

theorem Expanded.sameFirsts {f : TypeRef → List TypeRef} {xs ys : List TypeRef} (h : SameFirsts xs ys)
    (hys : Expanded f ys) : Expanded f xs :=
  (h.flatMap f).trans (SameFirsts.trans hys h.symm)

/-- an interface with what it shows -/
def shows (s : FactSet) (hs : s.Acyclic) (keep : TypeRef → Bool) (i : TypeRef) : List TypeRef :=
  i :: (s.via (s.lineage hs) i).filter keep

/-- an expanded list stays so when arguments are put in -/
theorem expanded_via (ho : s.Orderly) (hkeep : Stable keep) (r : TypeRef)
    (hlists : ∀ k, s.resolve r = some k → Expanded (s.shows hs keep) ((s.lineage hs k).filter keep)) :
    Expanded (s.shows hs keep) ((s.via (s.lineage hs) r).filter keep) := by
  rw [filter_via hkeep (lineage_concrete ho)]
  unfold via
  cases hk : s.resolve r with
  | none => exact SameFirsts.refl _
  | some k =>
    have hshows : ∀ i ∈ (s.lineage hs k).filter keep, s.shows hs keep (i.substitute r.withoutByRef.arguments) =
        (s.shows hs keep i).map (substitute r.withoutByRef.arguments) := by
      intro i hi
      have hbrings : s.Brings k i := brings_of_mem_lineage (List.mem_filter.1 hi).1
      have hplain := hbrings.isPlaceholder ho
      rw [shows, shows, List.map_cons, via_substitute ho _ hplain (hbrings.supplies ho), List.filter_map]
      congr 2
      apply List.filter_congr
      intro j hj
      exact hkeep j _ ((hbrings.of_mem_via ho hj).isPlaceholder ho)
    unfold Expanded
    dsimp only
    rw [List.flatMap_map, List.flatMap_congr hshows, ← List.map_flatMap]
    exact (hlists k hk).map _

/-- **Expanding a list.** In the shown part of a definition's list, following each interface by what it shows gives nothing
new, and leaves the order of first places. -/
theorem expand_lineage (ho : s.Orderly) (hkeep : Stable keep) (h : TypeHandle) :
    Expanded (s.shows hs keep) ((s.lineage hs h).filter keep) := by
  induction h using hs.induction with
  | step h ih =>
    refine Expanded.sameFirsts ((lineage_sameFirsts ho h).filter keep) ?_
    unfold gathered
    cases hfacts : s.facts? h with
    | none => exact SameFirsts.refl _
    | some facts =>
      have hvia : ∀ r ∈ facts.supers, Expanded (s.shows hs keep) ((s.via (s.lineage hs) r).filter keep) := fun r hr =>
        expanded_via ho hkeep r fun k hk => ih k (.single (leads_of_resolve hfacts hr hk))
      dsimp only
      rw [List.filter_append, List.filter_flatMap, List.filter_flatMap]
      refine Expanded.append (Expanded.flatMap fun i hi => ?_) (Expanded.flatMap fun b hb => ?_)
      · have hi := hvia i (mem_supers.2 (Or.inl hi))
        by_cases hshown : keep i = true
        · -- the interface is followed by what it shows already
          rw [List.filter_cons_of_pos hshown]
          unfold Expanded
          rw [List.flatMap_cons, shows]
          refine SameFirsts.trans ((SameFirsts.refl _).append hi) ?_
          exact sameFirsts_append_of_subset (List.subset_cons_self _ _)
        · rw [List.filter_cons_of_neg hshown]
          exact hi
      · exact hvia b (mem_supers.2 (Or.inr (Option.mem_toList.1 hb)))

end ApiSurface.FactSet
