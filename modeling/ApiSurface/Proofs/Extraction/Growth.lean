/-
A module that grows breaks nothing: its listing keeps what was listed before, up to additions.

Between the questions from before, added members ask for interfaces of their own. Caches stay in agreement as long as these lead
to no cycle from before; then both extractions find the same for everything that was there.

`addable_of_acyclic`: without cycles, all that matters of an added member is that it implements no interface.
`together_describeMember`, `together_describeType`: what is listed of members and types from before.
`extract_grown`: the module.
`tangled_not_kept`: a member whose constraint leads to a cycle may change what is listed of others.
-/
import ApiSurface.Proofs.Comparison.Compatibility
import ApiSurface.Proofs.Extraction.Walk
import ApiSurface.Proofs.Interfaces.Growth

namespace ApiSurface

variable {α β γ δ : Type}

/-! ## Two computations with results -/

namespace Extracting

/-- from caches that are related, results of both computations are related, and leave caches that are -/
def Together (R : Closures → Closures → Prop) (Q : α → β → Prop) (m : Extracting α) (m' : Extracting β) : Prop :=
  ∀ known known' result result', R known known' → m.run known = .ok result → m'.run known' = .ok result' →
    Q result.1 result'.1 ∧ R result.2 result'.2

/-- one computation preserves a property of caches if it has a result -/
def Preserves (J : Closures → Prop) (m : Extracting α) : Prop := ∀ known result, J known → m.run known = .ok result → J result.2

variable {R : Closures → Closures → Prop} {Q : α → β → Prop} {P : γ → δ → Prop} {m : Extracting α} {m' : Extracting β}

theorem Together.preserves {J : Closures → Prop} {Q : α → α → Prop} (hm : Together (Resolving.Alongside J) Q m m) :
    Preserves J m := fun known result hJ hrun => (hm known known result result ⟨rfl, hJ⟩ hrun hrun).2.2

theorem together_pure {a : α} {b : β} (h : Q a b) : Together R Q (pure a) (pure b) := by
  intro known known' result result' hR hrun hrun'
  cases hrun
  cases hrun'
  exact ⟨h, hR⟩

theorem together_throw (e e' : ExtractionFault) : Together R Q (throw e) (throw e') := by
  intro known known' result result' hR hrun hrun'
  cases hrun

theorem together_lift (x : Except ExtractionFault α) : Together R (fun a b => a = b) (liftM x) (liftM x) := by
  intro known known' result result' hR hrun hrun'
  cases x with
  | error e => cases hrun
  | ok a =>
    cases hrun
    cases hrun'
    exact ⟨rfl, hR⟩

theorem together_ofResolving {m : Resolving α} {m' : Resolving β} (h : Resolving.Together R Q m m') :
    Together R Q (ofResolving m) (ofResolving m') := by
  intro known known' result result' hR hrun hrun'
  cases hrun
  cases hrun'
  exact h known known' hR

/-- **One step after another.** -/
theorem Together.bind {f : α → Extracting γ} {f' : β → Extracting δ} (hm : Together R Q m m')
    (hf : ∀ a b, Q a b → Together R P (f a) (f' b)) : Together R P (m >>= f) (m' >>= f') := by
  intro known known' result result' hR hrun hrun'
  obtain ⟨between, hfirst, hsecond⟩ := exists_of_run_bind hrun
  obtain ⟨between', hfirst', hsecond'⟩ := exists_of_run_bind hrun'
  obtain ⟨hQ, hbetween⟩ := hm known known' between between' hR hfirst hfirst'
  exact hf _ _ hQ _ _ result result' hbetween hsecond hsecond'

/-- a step on one side only -/
theorem Together.after {m'' : Extracting γ} {f : γ → Extracting β} (hpreserves : ∀ known, Preserves (R known) m'')
    (hf : ∀ c, Together R Q m (f c)) : Together R Q m (m'' >>= f) := by
  intro known known' result result' hR hrun hrun'
  obtain ⟨between, hfirst, hsecond⟩ := exists_of_run_bind hrun'
  exact hf _ known between.2 result result' (hpreserves known known' between hR hfirst) hrun hsecond

theorem Together.mapM {f f' : α → Extracting β} {xs : List α}
    (h : ∀ x ∈ xs, Together R (fun a b => a = b) (f x) (f' x)) :
    Together R (fun as bs => as = bs) (xs.mapM f) (xs.mapM f') := by
  induction xs with
  | nil => exact together_pure rfl
  | cons x rest ih =>
    rw [List.mapM_cons, List.mapM_cons]
    refine (h x List.mem_cons_self).bind ?_
    rintro a _ rfl
    refine (ih fun y hy => h y (List.mem_cons_of_mem _ hy)).bind ?_
    rintro as _ rfl
    exact together_pure rfl

/-- **A step for each entry**, and for inserted ones on one side only. -/
theorem Together.mapM_inserted {f : α → Extracting γ} {g : β → Extracting δ} {S : α → β → Prop} {extra : β → Prop} {xs : List α}
    {ys : List β} (h : Inserted S extra xs ys) (hkept : ∀ x ∈ xs, ∀ y ∈ ys, S x y → Together R P (f x) (g y))
    (hextra : ∀ y ∈ ys, extra y → ∀ known, Preserves (R known) (g y)) :
    Together R (Inserted P fun _ => True) (xs.mapM f) (ys.mapM g) := by
  induction h with
  | nil => exact together_pure .nil
  | keep hxy _ ih =>
    rw [List.mapM_cons, List.mapM_cons]
    refine (hkept _ List.mem_cons_self _ List.mem_cons_self hxy).bind fun c d hcd => ?_
    have hrest := ih (fun x hx y hy => hkept x (List.mem_cons_of_mem _ hx) y (List.mem_cons_of_mem _ hy))
      fun y hy => hextra y (List.mem_cons_of_mem _ hy)
    exact hrest.bind fun cs ds hcds => together_pure (.keep hcd hcds)
  | @insert y xs ys hy _ ih =>
    rw [List.mapM_cons, ← bind_pure (xs.mapM f)]
    refine Together.after (hextra _ List.mem_cons_self hy) fun d => ?_
    have hrest := ih (fun x hx y hy => hkept x hx y (List.mem_cons_of_mem _ hy))
      fun y hy => hextra y (List.mem_cons_of_mem _ hy)
    exact hrest.bind fun cs ds hcds => together_pure (.insert trivial hcds)

end Extracting

/-- the type with more members -/
def TypeDescriptor.Outgrown (t t' : TypeDescriptor) : Prop :=
  ∃ members, t.members ⊆ members ∧ t' = { t with members := members }

/-- whether a type takes part does not depend on its members -/
def DescriptorFilter.ByDeclaration (keep : DescriptorFilter) : Prop :=
  ∀ t members, keep (.type { t with members := members }) = keep (.type t)

namespace FactSet

open Comparison Extracting

/-! ## Members -/

section

variable {s s' : FactSet} {f : VisibilityFilter} {R : Closures → Closures → Prop}

theorem together_describeGeneric (context : String) {g : GenericFacts}
    (hbounds : Resolving.Together R (fun is is' => is = is') (s.constraintSet (s.isVisible f) g)
      (s'.constraintSet (s'.isVisible f) g)) :
    Together R (fun b b' => b = b') (s.describeGeneric f context g) (s'.describeGeneric f context g) := by
  unfold describeGeneric
  refine (together_lift _).bind fun _ _ _ => ?_
  refine (together_ofResolving hbounds).bind ?_
  rintro bases _ rfl
  exact together_pure rfl

/-- a member is listed the same if its bounds are, and the interface that it implements without naming it -/
theorem together_describeMember (owner : TypeKind) (context : String) {interfaces : List TypeRef} {k k' : MemberHandle}
    {m : MemberEntry}
    (hbounds : ∀ g ∈ m.generics, Resolving.Together R (fun is is' => is = is') (s.constraintSet (s.isVisible f) g)
      (s'.constraintSet (s'.isVisible f) g))
    (himplemented : s'.implementedInterface interfaces k' = s.implementedInterface interfaces k) :
    Together R (fun d d' => d = d') (s.describeMember f owner context interfaces k m)
      (s'.describeMember f owner context interfaces k' m) := by
  have hconstraints : Together R (fun cs cs' => cs = cs') (s.describeConstraints f context m.generics)
      (s'.describeConstraints f context m.generics) := by
    unfold describeConstraints
    refine (Together.mapM fun g hg => (together_describeGeneric context (hbounds g hg)).bind ?_).bind ?_
    · rintro bounds _ rfl
      exact together_pure rfl
    · rintro all _ rfl
      exact together_pure rfl
  unfold describeMember
  rw [himplemented]
  refine (together_lift _).bind fun _ _ _ => ?_
  refine hconstraints.bind ?_
  rintro constraints _ rfl
  exact together_pure rfl

end

/-! ## What is exported -/

variable {s s' : FactSet} {f : VisibilityFilter}

/-- the member would be listed with the type -/
def Lists (s : FactSet) (f : VisibilityFilter) (entry : TypeEntry) (m : MemberEntry) : Prop :=
  entry.isDependency = false ∧ s.isExported f entry.facts = true ∧ s.keepsMember f entry.facts.kind m.facts = true

/-- a member that may be added to a type: it implements no interface, and if it is listed, its bounds ask for no interfaces that
lead to a cycle from before. Those of a bound that is visible and no class are not asked for. -/
structure Addable (f : VisibilityFilter) (s s' : FactSet) (entry : TypeEntry) (m : MemberEntry) : Prop where
  free : m.Free
  untangled : s.Lists f entry m → ∀ g ∈ m.generics, ∀ c ∈ g.constraints, s'.isClass c = true ∨ s'.isVisible f c = false →
    Untangled s s' c

variable {extra : TypeEntry → MemberEntry → Prop} {h : TypeHandle} {entry entry' : TypeEntry}

/-- in a hierarchy without cycles, any member that implements no interface may be added -/
theorem addable_of_acyclic (hs : s.Acyclic) {m : MemberEntry} (hm : m.Free) : Addable f s s' entry m where
  free := hm
  untangled _ _ _ _ _ _ _ _ l _ := hs l

section

variable (hgrown : Grown extra s s')
include hgrown

theorem isExported_grown {facts : TypeFacts} (hfacts : s.Mentions facts.reference) :
    s'.isExported f facts = s.isExported f facts := by
  induction facts using isExported.induct s with
  | case1 facts ih =>
    rw [isExported_eq, isExported_eq]
    congr 1
    cases hdeclaring : facts.reference.declaring? with
    | none => rfl
    | some declaring =>
      have hmentions : s.Mentions declaring := fun key hkey => hfacts key (TypeRef.mem_keys_of_declaring hdeclaring hkey)
      rw [Option.bind_some, Option.bind_some, definition?_grown hgrown hmentions]
      cases houter : s.definition? declaring with
      | none => rfl
      | some outer =>
        rw [Option.all_some, Option.all_some]
        exact ih declaring hdeclaring outer houter (mentions_of_definition? houter)

theorem isVisible_grown {r : TypeRef} (hr : s.Mentions r) : s'.isVisible f r = s.isVisible f r := by
  rw [isVisible, isVisible, definition?_grown hgrown hr]
  cases hfacts : s.definition? r with
  | none => rfl
  | some facts => exact isExported_grown hgrown (mentions_of_definition? hfacts)

theorem moduleTypes_grown : ∃ more, s'.moduleTypes = s.moduleTypes ++ more := by
  obtain ⟨kept, added, hentries, halike, -⟩ := hgrown.entries
  have hdependencies : kept.map TypeEntry.isDependency = s.entries.map TypeEntry.isDependency :=
    map_eq_of_forall₂ (fun _ _ hentry => hentry.isDependency) halike
  rw [moduleTypes_eq, moduleTypes_eq, hentries, List.map_append, hdependencies, List.zipIdx_append, List.filterMap_append]
  exact ⟨_, rfl⟩

end

/-! ## Types -/

section

variable (hgrown : Grown (Addable f s s') s s')
include hgrown

/-- **Members from before** are listed as before, between added ones. -/
theorem together_describeMembers (hentry : s.entry? h = some entry) (hentry' : s'.entry? h = some entry')
    (hentries : entry.Grown (Addable f s s' entry) entry') (hmodule : entry.isDependency = false)
    (hexported : s.isExported f entry.facts = true) (context : String) (interfaces : List TypeRef) :
    Together (s.CachesAgree s.Mentions) (Inserted (fun d d' => d = d') fun _ => True)
      (s.describeMembers f entry.facts.kind context interfaces (s.membersOf h))
      (s'.describeMembers f entry.facts.kind context interfaces (s'.membersOf h)) := by
  have hkeeps : ∀ m ∈ entry.members, s'.keepsMember f entry.facts.kind m.facts = s.keepsMember f entry.facts.kind m.facts := by
    intro m hm
    unfold keepsMember
    cases hexplicit : m.facts.explicitInterface with
    | none => rfl
    | some i =>
      have hi : s.Mentions i := mentions_of_member hentry hm (by simp [MemberEntry.references, hexplicit])
      dsimp only
      rw [isVisible_grown hgrown hi]
  have hkept : Inserted (fun p p' => p'.2 = p.2) (fun p' => Addable f s s' entry p'.2)
      (s.keptAmong f entry.facts.kind (s.membersOf h)) (s'.keptAmong f entry.facts.kind (s'.membersOf h)) := by
    refine Inserted.of_map (R := fun m m' => m' = m) ?_
    rw [map_keptAmong f hentry, map_keptAmong f hentry']
    refine hentries.members.filter ?_
    rintro m hm _ rfl
    exact (hkeeps _ hm).symm
  rw [describeMembers_eq, describeMembers_eq]
  refine Together.mapM_inserted hkept ?_ ?_
  · rintro ⟨k, _⟩ hp ⟨k', m⟩ hp' rfl
    have hm : m ∈ entry.members := by
      have hmem := List.mem_map_of_mem (f := Prod.snd) hp
      rw [map_keptAmong f hentry] at hmem
      exact (List.mem_filter.1 hmem).1
    refine together_describeMember _ context (fun g hg => ?_) ?_
    · refine together_constraintSet_grown hgrown (fun r hr => isVisible_grown hgrown hr) fun c hc => ?_
      refine mentions_of_member hentry hm ?_
      unfold MemberEntry.references
      exact List.mem_append_right _ (List.mem_flatMap.2 ⟨g, hg, hc⟩)
    · rw [implementedInterface_eq (member?_of_mem_keptAmong hp), implementedInterface_eq (member?_of_mem_keptAmong hp')]
  · rintro ⟨k', m⟩ hp' hextra known
    have hlists : s.Lists f entry m := by
      refine ⟨hmodule, hexported, ?_⟩
      have hkept := (List.mem_filter.1 hp').2
      unfold keepsMember at hkept ⊢
      rw [hextra.free.explicitInterface] at hkept ⊢
      exact hkept
    exact Together.preserves (together_describeMember _ context (fun g hg =>
      preserves_constraintSet_grown hgrown known _ fun c hc => hextra.untangled hlists g hg c hc) rfl)

/-- **Types from before** are listed as before, with more members. -/
theorem together_describeType (hentry : s.entry? h = some entry) (hentry' : s'.entry? h = some entry')
    (hentries : entry.Grown (Addable f s s' entry) entry') (hmodule : entry.isDependency = false)
    (hexported : s.isExported f entry.facts = true) :
    Together (s.CachesAgree s.Mentions) TypeDescriptor.Outgrown (s.describeType f h entry (s.membersOf h))
      (s'.describeType f h entry' (s'.membersOf h)) := by
  have hvisible : ∀ r, s.Mentions r → s'.isVisible f r = s.isVisible f r := fun r hr => isVisible_grown hgrown hr
  unfold describeType
  rw [hentries.facts, hentries.generics]
  refine (together_lift _).bind fun _ _ _ => ?_
  refine (together_ofResolving
    (together_directInterfaces_grown hgrown hvisible (fun _ _ hm => hm.free) hentry)).bind ?_
  rintro interfaces _ rfl
  refine (Together.mapM fun g hg => (together_describeGeneric _ ?_).bind ?_).bind ?_
  · refine together_constraintSet_grown hgrown hvisible fun c hc => mentions_of_mem hentry ?_
    have hg' : g ∈ entry.generics := (List.mem_filter.1 hg).1
    simp only [TypeEntry.references, List.mem_append, List.mem_flatMap]
    exact Or.inl (Or.inr ⟨g, hg', hc⟩)
  · rintro bounds _ rfl
    exact together_pure rfl
  rintro generics _ rfl
  refine (together_describeMembers hgrown hentry hentry' hentries hmodule hexported _ _).bind
    fun described described' hdescribed => ?_
  refine together_pure ⟨_, fun m hm => ?_, rfl⟩
  have hm' : m ∈ described := (List.mergeSort_perm _ _).mem_iff.1 hm
  exact (List.mergeSort_perm _ _).mem_iff.2 (hdescribed.subset hm')

theorem together_describeTypes (names : List String) {handles : List TypeHandle} (hmodule : ∀ h ∈ handles, h ∈ s.moduleTypes) :
    Together (s.CachesAgree s.Mentions) (List.Forall₂ TypeDescriptor.Outgrown) (s.describeTypes f s.membersOf names handles)
      (s'.describeTypes f s'.membersOf names handles) := by
  induction handles generalizing names with
  | nil => exact together_pure .nil
  | cons h rest ih =>
    obtain ⟨entry, hentry, hdependency⟩ := s.mem_moduleTypes_iff.1 (hmodule h List.mem_cons_self)
    obtain ⟨entry', hentry', hentries⟩ := hgrown.entry? hentry
    have hrest := fun names => ih names fun k hk => hmodule k (List.mem_cons_of_mem _ hk)
    have hreference : s.Mentions entry.facts.reference := mentions_of_mem hentry (by simp [TypeEntry.references])
    rw [describeTypes, describeTypes, hentry, hentry']
    dsimp only
    rw [hentries.facts, isExported_grown hgrown hreference]
    split
    · next hexported =>
      refine (together_describeType hgrown hentry hentry' hentries hdependency hexported).bind ?_
      rintro t _ ⟨members, hmembers, rfl⟩
      dsimp only
      split
      · exact (together_throw _ _).bind fun _ _ (hfalse : False) => hfalse.elim
      · exact (hrest _).bind fun ts ts' hts => together_pure (.cons ⟨members, hmembers, rfl⟩ hts)
    · exact hrest names

/-! ## The module -/

variable {l l' : Listing} (hl : s.extract f = .ok l) (hl' : s'.extract f = .ok l')
include hl hl'

/-- what was listed is listed with more members -/
theorem outgrown_of_extract {t : TypeDescriptor} (ht : t ∈ l.types) : ∃ t' ∈ l'.types, t.Outgrown t' := by
  obtain ⟨ts, hts, rfl⟩ := exists_of_extract f hl
  obtain ⟨ts', hts', rfl⟩ := exists_of_extract f hl'
  obtain ⟨known, hrun⟩ := exists_of_outcome hts
  obtain ⟨more, hmore⟩ := moduleTypes_grown hgrown
  rw [hmore, describeTypes_append] at hts'
  obtain ⟨known', hrun'⟩ := exists_of_outcome hts'
  obtain ⟨⟨before, between⟩, hbefore, hothers⟩ := exists_of_run_bind hrun'
  obtain ⟨⟨others, between'⟩, -, hall⟩ := exists_of_run_bind hothers
  cases hall
  obtain ⟨houtgrown, -⟩ := together_describeTypes hgrown [] (fun h hh => hh) [] [] (ts, known) (before, between)
    (.empty s s.Mentions) hrun hbefore
  have hdescribed : t ∈ ts := (List.mergeSort_perm _ _).mem_iff.1 ht
  obtain ⟨t', ht', htt'⟩ := AnyOrder.exists_mem ⟨ts, .refl _, houtgrown⟩ hdescribed
  exact ⟨t', (List.mergeSort_perm _ _).mem_iff.2 (List.mem_append_left _ ht'), htt'⟩

/-- **Additions break nothing.** A comparison with the listing of a module that has grown finds no violations, whatever is
approved and whichever types and members take part, as long as types do by their declaration. -/
theorem extract_grown (exclusions : ExclusionSet) {keep : DescriptorFilter} (hkeep : keep.ByDeclaration) :
    (l.compare l' exclusions keep).violations = [] := by
  obtain ⟨hnames, -, -⟩ := s'.extract_spec f hl'
  have hnames' : ((keep.types l').map TypeDescriptor.name).Nodup := hnames.sublist (List.filter_sublist.map _)
  have hcompatible : Compatible keep l l' := by
    refine (compatible_iff l l').2 fun t ht => ?_
    obtain ⟨hmem, hkept⟩ := List.mem_filter.1 ht
    obtain ⟨t', ht', members, hmembers, rfl⟩ := outgrown_of_extract hgrown hl hl' hmem
    have hpartner : { t with members := members } ∈ keep.types l' := List.mem_filter.2 ⟨ht', (hkeep t members).trans hkept⟩
    refine ⟨{ t with members := members }, ?_, rfl, ?_⟩
    · rw [named?_eq, filter_name_eq hnames' hpartner, List.getLast?_singleton]
    · exact List.map_subset _ (List.filter_subset _ hmembers)
  rw [List.eq_nil_iff_forall_not_mem]
  intro v hv
  obtain ⟨hfound, -⟩ := mem_violations_iff.1 hv
  rw [(compatible_iff_violations l l').1 hcompatible] at hfound
  cases hfound

end

/-! ## Two classes over each other -/

/-- a public class with a base type -/
def classOver (name base : String) (interfaces : List TypeRef) : TypeEntry :=
  let t := bareType .classType .pub (.topLevel "" name) interfaces
  { t with facts := { t.facts with baseType := some (.topLevel "" base) } }

/-- a canvas, two classes that are over each other, and possibly more -/
def tangled (canvasMembers : List MemberEntry) (more : List TypeEntry) : FactSet :=
  ⟨"Shapes", [{ bareType .classType .pub (.topLevel "" "Canvas") [] with members := canvasMembers },
    classOver "Rhombus" "Square" [.topLevel "" "IShape"], classOver "Square" "Rhombus" [.topLevel "" "IFigure"]] ++ more⟩

/-- a method with a generic parameter that is bounded by a class -/
def boundedMethod (bound : String) : MemberEntry :=
  { methodFacts .pub (.topLevel "" bound) with
    parameters := []
    generics := [⟨"T", 0, false, false, false, [.topLevel "" bound]⟩] }

/-- the method as listed -/
def listedBoundedMethod (bound : String) : MemberDescriptor :=
  { MemberDescriptor.plain .method "M<T>" with
    visibility := some .pub
    constraints := [⟨0, { Bounds.unbounded with bases := [bound] }⟩] }

/-- the classes as listed: the first one that is asked for has an interface that the other does not bring in -/
def listedTangled (canvasMembers : List MemberDescriptor) (more : List TypeDescriptor) : List TypeDescriptor :=
  [{ TypeDescriptor.ofClass "Canvas" with members := canvasMembers },
    ((TypeDescriptor.ofClass "Rhombus").extending "Square").implementing "IShape",
    (TypeDescriptor.ofClass "Square").extending "Rhombus"] ++ more

theorem grown_tangled {extra : TypeEntry → MemberEntry → Prop} {m : MemberEntry} {more : List TypeEntry}
    (hm : extra (bareType .classType .pub (.topLevel "" "Canvas") []) m)
    (hmore : ∀ entry ∈ more, ∀ key, entry.facts.reference.definitionKey? = some key → key ∉ (tangled [] []).keys) :
    Grown extra (tangled [] []) (tangled [m] more) := by
  refine ⟨rfl, _, more, rfl, .cons ⟨rfl, rfl, rfl, .insert hm .nil⟩ (.cons ?_ (.cons ?_ .nil)), hmore⟩
  · exact ⟨rfl, rfl, rfl, .nil⟩
  · exact ⟨rfl, rfl, rfl, .nil⟩

theorem extract_tangled : (tangled [] []).extract .standard = .ok ⟨"Shapes", listedTangled [] []⟩ := by
  have hflat : ∀ entry ∈ (tangled [] []).entries, entry.facts.reference.declaring? = none := by decide
  have hcanvas : entry? (tangled [] []) ⟨0⟩ = some (tangled [] []).entries[0] := rfl
  have hrhombus : entry? (tangled [] []) ⟨1⟩ = some (tangled [] []).entries[1] := rfl
  have hsquare : entry? (tangled [] []) ⟨2⟩ = some (tangled [] []).entries[2] := rfl
  have hmodule : (tangled [] []).moduleTypes = [⟨0⟩, ⟨1⟩, ⟨2⟩] := rfl
  refine extract_of_outcome _ ?_ (by decide) (by decide)
  simp only [hmodule, describeTypes, hcanvas, hrhombus, hsquare, isExported_flat _ _ hflat (List.getElem_mem _), describeType,
    isVisible_flat _ _ hflat]
  rfl

/-- one class more, and a method bounded by a class that leads nowhere -/
def tangledGrown : FactSet := tangled [boundedMethod "Canvas"] [classOver "Triangle" "Square" []]

/-- the cycle is listed as before -/
theorem extract_grown_tangled :
    Grown (Addable .standard (tangled [] []) tangledGrown) (tangled [] []) tangledGrown ∧
      ∃ l l', (tangled [] []).extract .standard = .ok l ∧ tangledGrown.extract .standard = .ok l' ∧
        (l.compare l' .empty .keepAll).violations = [] := by
  have hleads : ∀ canvasMembers more k, ¬(tangled canvasMembers more).Leads ⟨0⟩ k := by
    intro canvasMembers more k hk
    obtain ⟨facts, hfacts, r, hr, -⟩ := leads_iff.1 hk
    obtain rfl := Option.some.inj hfacts
    cases hr
  have huntangled : Untangled (tangled [] []) tangledGrown (.topLevel "" "Canvas") := by
    intro k hk l hl hcycle
    obtain rfl : (⟨0⟩ : TypeHandle) = k := Option.some.inj hk
    rcases hl.cases_head with rfl | ⟨next, hnext, -⟩
    · obtain ⟨next, hnext, -⟩ := Relation.TransGen.head'_iff.1 hcycle
      exact hleads _ _ _ hnext
    · exact hleads _ _ _ hnext
  have hgrown : Grown (Addable .standard (tangled [] []) tangledGrown) (tangled [] []) tangledGrown := by
    refine grown_tangled ⟨⟨rfl, rfl⟩, fun _ g hg c hc _ => ?_⟩ (by decide)
    obtain rfl := List.mem_singleton.1 hg
    obtain rfl := List.mem_singleton.1 hc
    exact huntangled
  have hflat : ∀ entry ∈ tangledGrown.entries, entry.facts.reference.declaring? = none := by decide
  have hcanvas : entry? tangledGrown ⟨0⟩ = some tangledGrown.entries[0] := rfl
  have hrhombus : entry? tangledGrown ⟨1⟩ = some tangledGrown.entries[1] := rfl
  have hsquare : entry? tangledGrown ⟨2⟩ = some tangledGrown.entries[2] := rfl
  have htriangle : entry? tangledGrown ⟨3⟩ = some tangledGrown.entries[3] := rfl
  have hmodule : tangledGrown.moduleTypes = [⟨0⟩, ⟨1⟩, ⟨2⟩, ⟨3⟩] := rfl
  have hextract : tangledGrown.extract .standard = .ok ⟨"Shapes",
      listedTangled [listedBoundedMethod "Canvas"] [(TypeDescriptor.ofClass "Triangle").extending "Square"]⟩ := by
    refine extract_of_outcome _ ?_ (by decide) (by decide)
    simp only [hmodule, describeTypes, hcanvas, hrhombus, hsquare, htriangle, isExported_flat _ _ hflat (List.getElem_mem _),
      describeType, isVisible_flat _ _ hflat, describeMembers_eq, describeMember, describeConstraints, describeGeneric]
    rfl
  exact ⟨hgrown, _, _, extract_tangled, hextract, extract_grown hgrown extract_tangled hextract .empty fun _ _ => rfl⟩

/-- a method bounded by a class on the cycle -/
def tangledFurther : FactSet := tangled [boundedMethod "Square"] []

/-- **A bound on a cycle.** The method asks for the second class first, and it is the first one that has no interface of its own
now. -/
theorem tangled_not_kept :
    Grown (fun _ m => m.Free) (tangled [] []) tangledFurther ∧
      ∃ l l', (tangled [] []).extract .standard = .ok l ∧ tangledFurther.extract .standard = .ok l' ∧
        (l.compare l' .empty .keepAll).violations ≠ [] := by
  have hgrown : Grown (fun _ m => m.Free) (tangled [] []) tangledFurther :=
    grown_tangled ⟨rfl, rfl⟩ (List.forall_mem_nil _)
  have hflat : ∀ entry ∈ tangledFurther.entries, entry.facts.reference.declaring? = none := by decide
  have hcanvas : entry? tangledFurther ⟨0⟩ = some tangledFurther.entries[0] := rfl
  have hrhombus : entry? tangledFurther ⟨1⟩ = some tangledFurther.entries[1] := rfl
  have hsquare : entry? tangledFurther ⟨2⟩ = some tangledFurther.entries[2] := rfl
  have hmodule : tangledFurther.moduleTypes = [⟨0⟩, ⟨1⟩, ⟨2⟩] := rfl
  have hextract : tangledFurther.extract .standard = .ok ⟨"Shapes",
      [(TypeDescriptor.ofClass "Canvas").withMember (listedBoundedMethod "Square"),
        (TypeDescriptor.ofClass "Rhombus").extending "Square",
        ((TypeDescriptor.ofClass "Square").extending "Rhombus").implementing "IFigure"]⟩ := by
    refine extract_of_outcome _ ?_ (by decide) (by decide)
    simp only [hmodule, describeTypes, hcanvas, hrhombus, hsquare, isExported_flat _ _ hflat (List.getElem_mem _),
      describeType, isVisible_flat _ _ hflat, describeMembers_eq, describeMember, describeConstraints, describeGeneric]
    rfl
  refine ⟨hgrown, _, _, extract_tangled, hextract, fun hnone => ?_⟩
  have hcompatible : Compatible .keepAll _ _ := List.isEmpty_iff.2 hnone
  rw [compatible_iff_violations] at hcompatible
  exact absurd hcompatible (by decide)

end FactSet

end ApiSurface
