/-
The Id of a type tells its declaration, but for one thing: whether the first supertype is a base type or an interface.

`sameDeclaration_of_id`: types of one name and one Id have the same visibility, kind, modifiers, supertypes and bounded
parameters.
`declaration_kept`: so have paired types that a comparison reports no change of.
`base_or_interface`: a base type that becomes an interface is not seen.
-/
import ApiSurface.Descriptor.Type
import ApiSurface.Proofs.Comparison.Exactness
import ApiSurface.Proofs.Descriptor.Clause

namespace ApiSurface

open Text

/-! ## Keywords before the name -/

theorem TypeKind.keyword_inj {k l : TypeKind} (h : k.keyword = l.keyword) : k = l := by
  revert h
  cases k <;> cases l <;> decide

theorem TypeKind.closed_keyword (k : TypeKind) : Closed k.keyword.toList := by
  cases k <;> decide

namespace TypeDescriptor

/-- the words that may stand before the keyword of the kind -/
def leadingWords : List String := ["public", "protected", "internal", "private", "static", "abstract", "sealed"]

theorem leadingWords_spec {w : String} (h : w ∈ leadingWords) (k : TypeKind) : w ∈ keywords ∧ w ≠ k.keyword := by
  revert w
  cases k <;> decide

theorem mem_modifiers (t : TypeDescriptor) (w : String) : w ∈ t.modifiers ↔
    (w = "static" ∧ t.isStatic = true) ∨
      (w = "abstract" ∧ t.isStatic = false ∧ t.isAbstract = true ∧ t.kind ≠ .interfaceType) ∨
      (w = "sealed" ∧ t.isStatic = false ∧ t.isSealed = true ∧ t.kind = .classType) := by
  unfold modifiers
  cases t.isStatic <;> cases t.isAbstract <;> cases t.isSealed <;> cases t.kind <;> simp

theorem modifiers_subset (t : TypeDescriptor) : ∀ w ∈ t.modifiers, w ∈ ["static", "abstract", "sealed"] := by
  intro w hw
  rw [mem_modifiers] at hw
  rcases hw with ⟨rfl, -⟩ | ⟨rfl, -⟩ | ⟨rfl, -⟩ <;> decide

/-- the words before the keyword of the kind -/
def lead (t : TypeDescriptor) : List String := Visibility.shownWords (some t.visibility) ++ t.modifiers

theorem lead_subset (t : TypeDescriptor) : ∀ w ∈ t.lead, w ∈ leadingWords := by
  have hvisibilities : ∀ w ∈ Visibility.allWords, w ∈ leadingWords := by decide
  have hmodifiers : ∀ w ∈ ["static", "abstract", "sealed"], w ∈ leadingWords := by decide
  intro w hw
  rcases List.mem_append.1 hw with hw | hw
  · exact hvisibilities w (Visibility.shownWords_subset _ w hw)
  · exact hmodifiers w (modifiers_subset t w hw)

/-- the words before the kind tell the visibility and the modifiers -/
theorem lead_inj {t c : TypeDescriptor} (h : t.lead = c.lead) :
    t.visibility = c.visibility ∧ t.modifiers = c.modifiers := by
  have hother : ∀ w ∈ ["static", "abstract", "sealed"], w ∉ Visibility.allWords := by decide
  obtain ⟨hvisibility, hmodifiers⟩ := Visibility.shownWords_append_inj
    (fun w hw => hother w (modifiers_subset t w hw)) (fun w hw => hother w (modifiers_subset c w hw)) h
  exact ⟨Option.some.inj hvisibility, hmodifiers⟩

/-! ## The declaration as a text -/

/-- the bounded parameters with their names -/
def bounded (t : TypeDescriptor) : List (String × Bounds) :=
  (t.genericParameters.filter fun g => g.bounds.any).map fun g => (g.name, g.bounds)

theorem toList_id (t : TypeDescriptor) : t.id.toList =
    spaced (t.lead.map String.toList) ++
      (t.kind.keyword.toList ++ ' ' :: (t.name.toList ++ (t.inheritance.toList ++ clausesText t.bounded))) := by
  have hclauses : (t.clauses.map String.toList).flatMap (fun r => ' ' :: r) = clausesText t.bounded := by
    simp only [clauses, bounded, clausesText, List.flatMap_map]
    rfl
  have hwords : spaced ([t.visibility.keyword.toList] ++ (t.modifiers.map String.toList ++ [t.kind.keyword.toList])) =
      spaced (t.lead.map String.toList) ++ (t.kind.keyword.toList ++ [' ']) := by
    rw [List.singleton_append, Visibility.spaced_words, lead, List.map_append, ← List.append_assoc, spaced_append,
      spaced_append]
    simp [spaced, Visibility.shownWords]
  have hsplit : ([t.visibility.keyword] ++ t.modifiers ++ [t.kind.keyword, t.name ++ t.inheritance] ++ t.clauses).map
      String.toList = [t.visibility.keyword.toList] ++ (t.modifiers.map String.toList ++ [t.kind.keyword.toList]) ++
        (t.name ++ t.inheritance).toList :: t.clauses.map String.toList := by
    simp
  unfold id
  rw [String.toList_intercalate, hsplit]
  change List.intercalate [' '] _ = _
  rw [intercalate_blank, hwords, hclauses, String.toList_append]
  simp

/-- supertypes after a colon, or nothing for none -/
def inheritanceText (supertypes : List String) : List Char :=
  if supertypes.isEmpty then [] else " : ".toList ++ joined (supertypes.map String.toList)

theorem toList_inheritance (t : TypeDescriptor) : t.inheritance.toList = inheritanceText t.supertypes := by
  unfold inheritance inheritanceText
  split
  · rfl
  · rw [String.toList_append, String.toList_intercalate]
    rfl

theorem inheritance_ne_clauses (s : String) (supertypes : List String) (x : List Char) (clauses : List (String × Bounds))
    (h : ∀ c ∈ clauses, ReadableClause c) : inheritanceText (s :: supertypes) ++ x ≠ clausesText clauses := by
  intro heq
  cases clauses with
  | nil => cases heq
  | cons c rest =>
    rw [clausesText_cons c.1 (h c List.mem_cons_self).1] at heq
    cases heq

/-- the supertypes are cut off in one way before the clauses -/
theorem inheritance_cut {us vs : List String} {cs ds : List (String × Bounds)} (hus : ∀ u ∈ us, TypeName u)
    (hvs : ∀ v ∈ vs, TypeName v) (hcs : ∀ c ∈ cs, ReadableClause c) (hds : ∀ d ∈ ds, ReadableClause d)
    (h : inheritanceText us ++ clausesText cs = inheritanceText vs ++ clausesText ds) :
    us = vs ∧ clausesText cs = clausesText ds := by
  cases us with
  | nil =>
    cases vs with
    | nil => exact ⟨rfl, h⟩
    | cons v vs => exact absurd h.symm (inheritance_ne_clauses v vs _ cs hcs)
  | cons u us =>
    cases vs with
    | nil => exact absurd h (inheritance_ne_clauses u us _ ds hds)
    | cons v vs =>
      have hclosed : ∀ {ws : List String}, (∀ w ∈ ws, TypeName w) → ∀ w ∈ ws.map String.toList, Closed w := by
        intro ws hws w hw
        obtain ⟨s, hs, rfl⟩ := List.mem_map.1 hw
        exact (hws s hs).closed
      simp only [inheritanceText, List.isEmpty_cons, Bool.false_eq_true, ↓reduceIte, List.append_assoc] at h
      obtain ⟨hnames, hrest⟩ := joined_cut (by simp) (by simp) (hclosed hus) (hclosed hvs) (endsBlank_clausesText cs)
        (endsBlank_clausesText ds) (List.append_cancel_left h)
      exact ⟨map_toList_inj hnames, hrest⟩

/-! ## Reading the declaration back -/

/-- supertypes and bounds have names of types, and generic parameters have identifiers -/
structure Readable (t : TypeDescriptor) : Prop where
  base : ∀ b ∈ t.baseType, TypeName b
  interfaces : ∀ i ∈ t.interfaces, TypeName i
  bounds : ∀ g ∈ t.genericParameters, g.bounds.Named
  parameters : ∀ g ∈ t.genericParameters, Identifier g.name

theorem Readable.supertypes {t : TypeDescriptor} (h : t.Readable) : ∀ s ∈ t.supertypes, TypeName s := by
  intro s hs
  rcases List.mem_append.1 hs with hs | hs
  · exact h.base s (Option.mem_toList.1 hs)
  · exact h.interfaces s hs

theorem Readable.bounded {t : TypeDescriptor} (h : t.Readable) : ∀ c ∈ t.bounded, ReadableClause c := by
  intro c hc
  obtain ⟨g, hg, rfl⟩ := List.mem_map.1 hc
  obtain ⟨hg, hany⟩ := List.mem_filter.1 hg
  exact ⟨hany, h.bounds g hg, fun hblank => h.parameters g hg _ hblank (by decide)⟩

theorem bounded_inj {t c : TypeDescriptor} (h : t.bounded = c.bounded) :
    (t.genericParameters.filter fun g => g.bounds.any) = c.genericParameters.filter fun g => g.bounds.any := by
  refine (List.map_injective_iff.2 ?_) h
  rintro ⟨name, bounds⟩ ⟨name', bounds'⟩ heq
  cases heq
  rfl

/-- what two declarations have in common when they print alike -/
structure SameDeclaration (t c : TypeDescriptor) : Prop where
  visibility : t.visibility = c.visibility
  kind : t.kind = c.kind
  isStatic : t.isStatic = c.isStatic
  /-- a static type does not show that it is abstract or sealed -/
  isAbstract : t.isStatic = false → t.kind ≠ .interfaceType → t.isAbstract = c.isAbstract
  isSealed : t.isStatic = false → t.kind = .classType → t.isSealed = c.isSealed
  /-- the base type, if any, and then the interfaces -/
  supertypes : t.supertypes = c.supertypes
  /-- which supertype is the base type is not shown, but they agree on it when both have one or neither has -/
  slots : t.baseType.isSome = c.baseType.isSome → t.baseType = c.baseType ∧ t.interfaces = c.interfaces
  bounded : (t.genericParameters.filter fun g => g.bounds.any) = c.genericParameters.filter fun g => g.bounds.any

/-- the two slots agree when they are filled alike -/
theorem slots_of_supertypes {t c : TypeDescriptor} (h : t.supertypes = c.supertypes)
    (hbase : t.baseType.isSome = c.baseType.isSome) : t.baseType = c.baseType ∧ t.interfaces = c.interfaces := by
  unfold supertypes at h
  cases ht : t.baseType with
  | none =>
    cases hc : c.baseType with
    | none => rw [ht, hc] at h; exact ⟨rfl, h⟩
    | some b => rw [ht, hc] at hbase; cases hbase
  | some b =>
    cases hc : c.baseType with
    | none => rw [ht, hc] at hbase; cases hbase
    | some b' =>
      rw [ht, hc] at h
      obtain ⟨rfl, hinterfaces⟩ := List.cons.inj h
      exact ⟨rfl, hinterfaces⟩

/-- the shown modifiers tell the flags that count for the kind -/
theorem flags_of_modifiers {t c : TypeDescriptor} (hkind : t.kind = c.kind) (h : t.modifiers = c.modifiers) :
    t.isStatic = c.isStatic ∧ (t.isStatic = false → t.kind ≠ .interfaceType → t.isAbstract = c.isAbstract) ∧
      (t.isStatic = false → t.kind = .classType → t.isSealed = c.isSealed) := by
  have hmem : ∀ w, w ∈ t.modifiers ↔ w ∈ c.modifiers := fun w => by rw [h]
  have hstatic : t.isStatic = c.isStatic := by
    have := hmem "static"
    rw [mem_modifiers, mem_modifiers] at this
    exact Bool.eq_iff_iff.2 (by simpa using this)
  refine ⟨hstatic, fun hs hk => ?_, fun hs hk => ?_⟩
  · have := hmem "abstract"
    rw [mem_modifiers, mem_modifiers, ← hstatic, ← hkind] at this
    exact Bool.eq_iff_iff.2 (by simpa [hs, hk] using this)
  · have := hmem "sealed"
    rw [mem_modifiers, mem_modifiers, ← hstatic, ← hkind] at this
    exact Bool.eq_iff_iff.2 (by simpa [hs, hk] using this)

/-- **The Id tells the declaration**, up to what stands in the slot of the base type. -/
theorem sameDeclaration_of_id {t c : TypeDescriptor} (ht : t.Readable) (hc : c.Readable) (hname : t.name = c.name)
    (hid : t.id = c.id) : SameDeclaration t c := by
  have htext := congrArg String.toList hid
  rw [toList_id, toList_id, hname] at htext
  have hlead : ∀ u : TypeDescriptor, ∀ w ∈ u.lead.map String.toList,
      Closed w ∧ ¬∃ k : TypeKind, w = k.keyword.toList := by
    intro u w hw
    obtain ⟨s, hs, rfl⟩ := List.mem_map.1 hw
    refine ⟨closed_of_mem_keywords (leadingWords_spec (lead_subset u s hs) .classType).1, ?_⟩
    rintro ⟨k, hk⟩
    exact (leadingWords_spec (lead_subset u s hs) k).2 (String.toList_inj.1 hk)
  obtain ⟨hwords, hkind, hrest⟩ := spaced_cut (hlead t) (hlead c) ⟨t.kind.closed_keyword, t.kind, rfl⟩
    ⟨c.kind.closed_keyword, c.kind, rfl⟩ htext
  have hkind : t.kind = c.kind := TypeKind.keyword_inj (String.toList_inj.1 hkind)
  obtain ⟨hvisibility, hmodifiers⟩ := lead_inj (map_toList_inj hwords)
  obtain ⟨hstatic, habstract, hsealed⟩ := flags_of_modifiers hkind hmodifiers
  have hrest := List.append_cancel_left hrest
  rw [toList_inheritance, toList_inheritance] at hrest
  obtain ⟨hsupertypes, hclauses⟩ := inheritance_cut ht.supertypes hc.supertypes ht.bounded hc.bounded hrest
  exact {
    visibility := hvisibility
    kind := hkind
    isStatic := hstatic
    isAbstract := habstract
    isSealed := hsealed
    supertypes := hsupertypes
    slots := slots_of_supertypes hsupertypes
    bounded := bounded_inj (clauses_inj ht.bounded hc.bounded hclauses) }

end TypeDescriptor

/-! ## Reports -/

/-- a paired type whose Id is another one is found changed -/
theorem Comparison.changedType_mem_violations {baseline candidate : Listing} {keep : DescriptorFilter}
    {t c : TypeDescriptor} (ht : t ∈ keep.types baseline) (hpaired : named? (keep.types candidate) t.name = some c)
    (hid : c.id ≠ t.id) : changedType t c ∈ violations baseline candidate keep := by
  refine List.mem_flatMap.2 ⟨t, ht, ?_⟩
  rw [hpaired]
  refine List.mem_append_left _ ?_
  rw [if_neg hid]
  exact List.mem_singleton_self _

/-- **No type changes in silence.** Types of one name with one Id have one declaration, up to what stands in the slot of
the base type; and so have a type and the candidate it is paired with when a report, approved violations included, has
no change of the type. -/
theorem declaration_kept (t c : TypeDescriptor) (ht : t.Readable) (hc : c.Readable) (hname : t.name = c.name) :
    (t.id = c.id → t.SameDeclaration c) ∧
      ∀ (baseline candidate : Listing) (exclusions : ExclusionSet) (keep : DescriptorFilter),
        t ∈ keep.types baseline → Comparison.named? (keep.types candidate) t.name = some c →
        (∀ v ∈ (baseline.compare candidate exclusions keep).violations ++
          (baseline.compare candidate exclusions keep).suppressed, v.key = ⟨t.id, none⟩ → v.kind ≠ .typeChanged) →
        t.SameDeclaration c := by
  refine ⟨TypeDescriptor.sameDeclaration_of_id ht hc hname, ?_⟩
  intro baseline candidate exclusions keep hkept hpaired hsilent
  by_cases hid : c.id = t.id
  · exact TypeDescriptor.sameDeclaration_of_id ht hc hname hid.symm
  · have hfound := Comparison.changedType_mem_violations hkept hpaired hid
    exact absurd rfl (hsilent _ (Comparison.mem_report exclusions hfound) rfl)

/-- a class with a base type, an interface and a bounded parameter -/
def derived : TypeDescriptor :=
  ((TypeDescriptor.ofClass "X").extending "A").implementing "I<A, B>"
    |>.withGeneric ⟨"T", ⟨true, true, false, ["I<A, B>"]⟩⟩

/-- a class that has these supertypes as interfaces, and a parameter without bounds and a member besides -/
def conforming : TypeDescriptor :=
  ((TypeDescriptor.ofClass "X").implementing "A").implementing "I<A, B>"
    |>.withGeneric (.unconstrained "U")
    |>.withGeneric ⟨"T", ⟨true, true, false, ["I<A, B>"]⟩⟩
    |>.withMember (.method "M" "A")

/-- the two classes have one Id, and one declaration as far as the Id shows it -/
theorem declaration_kept_derived :
    derived.Readable ∧ conforming.Readable ∧ derived.name = conforming.name ∧ derived ≠ conforming ∧
      derived.id = "public class X : A, I<A, B> where T : class, I<A, B>, new()" ∧
      (derived.id = conforming.id ∧ derived.SameDeclaration conforming) ∧
      Comparison.violations ⟨"Lib", [derived]⟩ ⟨"Lib", [conforming]⟩ .keepAll = [] ∧ derived.SameDeclaration conforming := by
  have hderived : derived.Readable := ⟨by decide, by decide, by decide, by decide⟩
  have hconforming : conforming.Readable := ⟨by decide, by decide, by decide, by decide⟩
  have hid : derived.id = conforming.id := by decide
  have hnone : Comparison.violations ⟨"Lib", [derived]⟩ ⟨"Lib", [conforming]⟩ .keepAll = [] := by decide
  obtain ⟨hsame, hreported⟩ := declaration_kept derived conforming hderived hconforming rfl
  refine ⟨hderived, hconforming, rfl, by decide, by decide, ⟨hid, hsame hid⟩, hnone,
    hreported ⟨"Lib", [derived]⟩ ⟨"Lib", [conforming]⟩ .empty .keepAll (by decide) (by decide) ?_⟩
  intro v hv
  have hfound := (Comparison.perm_report _ _ _ _).mem_iff.1 hv
  rw [hnone] at hfound
  cases hfound

/-- **A base type may become an interface in silence**: the two declarations have one Id, so that nothing is found. -/
theorem base_or_interface :
    let t := (TypeDescriptor.ofClass "X").extending "A"
    let c := (TypeDescriptor.ofClass "X").implementing "A"
    t.Readable ∧ c.Readable ∧ t.name = c.name ∧ t.id = c.id ∧
      Comparison.violations ⟨"Lib", [t]⟩ ⟨"Lib", [c]⟩ .keepAll = [] ∧
      ¬t.baseType = c.baseType ∧ ¬t.interfaces = c.interfaces := by
  exact ⟨⟨by decide, nofun, nofun, nofun⟩, ⟨nofun, by decide, nofun, nofun⟩, rfl, by decide, by decide, by decide,
    by decide⟩

end ApiSurface
