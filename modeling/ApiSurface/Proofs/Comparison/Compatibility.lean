/-
Compatibility: a candidate that breaks nothing of a baseline.

`finding_of_mem`: what a comparison can find of one type.
`compatible_iff`: what a comparison that passes says of the two listings, type by type.
`compatible_refl`, `compatible_trans`: compatibility is a preorder on valid listings, and transitive on all.
`compatible_both_iff`: listings that are compatible both ways show the same.
-/
import ApiSurface.Comparison.Basic
import ApiSurface.Proofs.Comparison.Exactness
import Mathlib.Tactic.SplitIfs

namespace ApiSurface.Comparison

variable (keep : DescriptorFilter)

/-- without exclusions, the comparison with the candidate passes -/
def Compatible (baseline candidate : Listing) : Prop := (baseline.compare candidate .empty keep).passed = true

/-! ## What a comparison that passes says -/

/-- a member as comparisons see it: the signature that pairs it, and its Id -/
abbrev Face := MemberSignature × String

/-- the faces of the members that take part -/
def faces (t : TypeDescriptor) : List Face := (keep.members t).map fun m => (m.signature, m.id)

/-- the partner has the Id of a type, and at least its members -/
structure Retains (t c : TypeDescriptor) : Prop where
  id : c.id = t.id
  faces : faces keep t ⊆ faces keep c

variable {keep}

theorem Retains.refl (t : TypeDescriptor) : Retains keep t t := ⟨rfl, List.Subset.refl _⟩

theorem Retains.trans {t u v : TypeDescriptor} (htu : Retains keep t u) (huv : Retains keep u v) : Retains keep t v :=
  ⟨huv.id.trans htu.id, List.Subset.trans htu.faces huv.faces⟩

theorem mem_faces {t : TypeDescriptor} {face : Face} :
    face ∈ faces keep t ↔ ∃ m ∈ keep.members t, (m.signature, m.id) = face := by
  simp [faces]

/-- a member is fine when one of its rivals has its Id -/
theorem compareMember_eq_nil_iff (t : TypeDescriptor) (m : MemberDescriptor) (rivals : List MemberDescriptor) :
    compareMember t m rivals = [] ↔ ∃ n ∈ rivals, n.id = m.id := by
  cases rivals with
  | nil => simp [compareMember]
  | cons first rest =>
    have hany : ((first :: rest).any fun n => n.id == m.id) = true ↔ ∃ n ∈ first :: rest, n.id = m.id := by simp
    rw [compareMember, ← hany]
    split_ifs with h <;> simp [h]

/-- what may become of a member: one of its rivals has its Id, it has none, or there are others only -/
theorem compareMember_cases (t : TypeDescriptor) (m : MemberDescriptor) (rivals : List MemberDescriptor) :
    ((∃ n ∈ rivals, n.id = m.id) ∧ compareMember t m rivals = []) ∨
      (rivals = [] ∧ compareMember t m rivals = [removedMember t m]) ∨
      (∀ n ∈ rivals, n.id ≠ m.id) ∧ ∃ n ∈ rivals, compareMember t m rivals = [changedMember t m n] := by
  by_cases hkept : ∃ n ∈ rivals, n.id = m.id
  · exact Or.inl ⟨hkept, (compareMember_eq_nil_iff t m rivals).2 hkept⟩
  · cases rivals with
    | nil => exact Or.inr (Or.inl ⟨rfl, rfl⟩)
    | cons first rest =>
      refine Or.inr (Or.inr ⟨fun n hn hid => hkept ⟨n, hn, hid⟩, first, List.mem_cons_self, ?_⟩)
      have hany : ¬((first :: rest).any fun n => n.id == m.id) = true := by simpa using hkept
      rw [compareMember, if_neg hany]

/-- what a comparison can find of a type that has this partner or none: the type is lost or changed, or one of its members -/
inductive Finding (keep : DescriptorFilter) (t : TypeDescriptor) : Option TypeDescriptor → Violation → Prop
  | lost : Finding keep t none (removedType t)
  | changed {c : TypeDescriptor} (hid : c.id ≠ t.id) : Finding keep t (some c) (changedType t c)
  | lostMember {c : TypeDescriptor} {m : MemberDescriptor} (hm : m ∈ keep.members t) (hrivals : rivals keep c m = []) :
    Finding keep t (some c) (removedMember t m)
  | changedMember {c : TypeDescriptor} {m n : MemberDescriptor} (hm : m ∈ keep.members t) (hn : n ∈ rivals keep c m)
    (hids : ∀ r ∈ rivals keep c m, r.id ≠ m.id) : Finding keep t (some c) (changedMember t m n)

/-- **What is found of a type** is one of these. -/
theorem finding_of_mem {t : TypeDescriptor} {partner : Option TypeDescriptor} {v : Violation}
    (hv : v ∈ compareType keep t partner) : Finding keep t partner v := by
  cases partner with
  | none =>
    rw [List.mem_singleton.1 hv]
    exact .lost
  | some c =>
    rcases List.mem_append.1 hv with hv | hv
    · split at hv
      · cases hv
      · next hid =>
        rw [List.mem_singleton.1 hv]
        exact .changed hid
    · obtain ⟨m, hm, hv⟩ := List.mem_flatMap.1 hv
      have hv : v ∈ compareMember t m (rivals keep c m) := hv
      rcases compareMember_cases t m (rivals keep c m) with ⟨-, heq⟩ | ⟨hrivals, heq⟩ | ⟨hids, n, hn, heq⟩
      · rw [heq] at hv
        cases hv
      · rw [heq] at hv
        rw [List.mem_singleton.1 hv]
        exact .lostMember hm hrivals
      · rw [heq] at hv
        rw [List.mem_singleton.1 hv]
        exact .changedMember hm hn hids

theorem Finding.typeId_eq {t : TypeDescriptor} {partner : Option TypeDescriptor} {v : Violation}
    (h : Finding keep t partner v) : v.typeId = t.id := by
  cases h <;> rfl

/-- a type is fine when it has a partner, and the partner retains it -/
theorem compareType_eq_nil_iff (t : TypeDescriptor) (partner : Option TypeDescriptor) :
    compareType keep t partner = [] ↔ ∃ c, partner = some c ∧ Retains keep t c := by
  cases partner with
  | none => simp [compareType]
  | some c =>
    have hmembers : ((keep.members t).flatMap fun m => compareMember t m
        ((keep.members c).filter fun n => decide (n.signature = m.signature))) = [] ↔ faces keep t ⊆ faces keep c := by
      simp only [List.flatMap_eq_nil_iff, compareMember_eq_nil_iff, List.mem_filter, decide_eq_true_eq]
      constructor
      · intro h face hface
        obtain ⟨m, hm, rfl⟩ := mem_faces.1 hface
        obtain ⟨n, ⟨hn, hsignature⟩, hid⟩ := h m hm
        exact mem_faces.2 ⟨n, hn, by rw [hsignature, hid]⟩
      · intro h m hm
        obtain ⟨n, hn, hface⟩ := mem_faces.1 (h (mem_faces.2 ⟨m, hm, rfl⟩))
        obtain ⟨hsignature, hid⟩ := Prod.mk.inj hface
        exact ⟨n, ⟨hn, hsignature⟩, hid⟩
    rw [compareType, List.append_eq_nil_iff, hmembers]
    constructor
    · rintro ⟨hid, hfaces⟩
      exact ⟨c, rfl, by simpa using hid, hfaces⟩
    · rintro ⟨_, hc, hretains⟩
      cases hc
      exact ⟨by simp [hretains.id], hretains.faces⟩

theorem compatible_iff_violations (baseline candidate : Listing) :
    Compatible keep baseline candidate ↔ violations baseline candidate keep = [] := by
  unfold Compatible ComparisonReport.passed
  rw [List.isEmpty_iff, List.eq_nil_iff_forall_not_mem, List.eq_nil_iff_forall_not_mem]
  simp [mem_violations_iff, ExclusionSet.empty]

/-- **A comparison passes** when every type of the baseline is retained by the candidate's last type of its name. -/
theorem compatible_iff (baseline candidate : Listing) :
    Compatible keep baseline candidate ↔
      ∀ t ∈ keep.types baseline, ∃ c, named? (keep.types candidate) t.name = some c ∧ Retains keep t c := by
  rw [compatible_iff_violations, violations, List.flatMap_eq_nil_iff]
  simp only [compareType_eq_nil_iff]

/-! ## Partners -/

/-- a partner is among the types, and has the name -/
theorem mem_of_named? {types : List TypeDescriptor} {name : String} {c : TypeDescriptor}
    (h : named? types name = some c) : c ∈ types ∧ c.name = name := by
  rw [named?_eq] at h
  simpa using List.mem_filter.1 (List.mem_of_getLast? h)

/-- in a valid listing a type is its own partner -/
theorem named?_of_mem {l : Listing} (hl : l.Valid) {t : TypeDescriptor} (ht : t ∈ keep.types l) :
    named? (keep.types l) t.name = some t := by
  rw [named?_eq, filter_name_eq (nodup_names_types keep hl) ht, List.getLast?_singleton]

/-- so a type that is not it has another name -/
theorem eq_of_name_eq {l : Listing} (hl : l.Valid) {t u : TypeDescriptor} (ht : t ∈ keep.types l)
    (hu : u ∈ keep.types l) (hname : t.name = u.name) : t = u := by
  have hpartner := named?_of_mem hl ht
  rw [hname, named?_of_mem hl hu] at hpartner
  exact (Option.some.inj hpartner).symm

/-! ## A preorder -/

theorem compatible_refl {l : Listing} (hl : l.Valid) : Compatible keep l l := by
  rw [compatible_iff]
  intro t ht
  exact ⟨t, named?_of_mem hl ht, .refl t⟩

theorem compatible_trans {a b c : Listing} (hab : Compatible keep a b) (hbc : Compatible keep b c) :
    Compatible keep a c := by
  rw [compatible_iff] at *
  intro t ht
  obtain ⟨u, hu, htu⟩ := hab t ht
  obtain ⟨hmem, hname⟩ := mem_of_named? hu
  obtain ⟨v, hv, huv⟩ := hbc u hmem
  rw [hname] at hv
  exact ⟨v, hv, htu.trans huv⟩

/-! ## Showing the same -/

variable (keep) in
/-- the types that take part have the same names on both sides, and types of one name the same Id and the same faces of
members that take part -/
structure SameSurface (a b : Listing) : Prop where
  names : ∀ name, name ∈ (keep.types a).map TypeDescriptor.name ↔ name ∈ (keep.types b).map TypeDescriptor.name
  ids : ∀ t ∈ keep.types a, ∀ u ∈ keep.types b, t.name = u.name → t.id = u.id
  faces : ∀ t ∈ keep.types a, ∀ u ∈ keep.types b, t.name = u.name → ∀ face, face ∈ faces keep t ↔ face ∈ faces keep u

theorem SameSurface.symm {a b : Listing} (h : SameSurface keep a b) : SameSurface keep b a where
  names name := (h.names name).symm
  ids t ht u hu hname := (h.ids u hu t ht hname.symm).symm
  faces t ht u hu hname face := (h.faces u hu t ht hname.symm face).symm

/-- a listing that shows the same retains every type -/
theorem SameSurface.compatible {a b : Listing} (hb : b.Valid) (h : SameSurface keep a b) : Compatible keep a b := by
  rw [compatible_iff]
  intro t ht
  obtain ⟨u, hu, hname⟩ := List.mem_map.1 ((h.names t.name).1 (List.mem_map_of_mem ht))
  refine ⟨u, hname ▸ named?_of_mem hb hu, (h.ids t ht u hu hname.symm).symm, ?_⟩
  intro face hface
  exact (h.faces t ht u hu hname.symm face).1 hface

/-- the types of one name retain each other when the listings are compatible -/
theorem retains_of_name_eq {a b : Listing} (hb : b.Valid) (hab : Compatible keep a b) {t u : TypeDescriptor}
    (ht : t ∈ keep.types a) (hu : u ∈ keep.types b) (hname : t.name = u.name) : Retains keep t u := by
  obtain ⟨c, hc, hretains⟩ := (compatible_iff a b).1 hab t ht
  obtain ⟨hmem, hcname⟩ := mem_of_named? hc
  rwa [eq_of_name_eq hb hmem hu (hcname.trans hname)] at hretains

theorem names_subset {a b : Listing} (hab : Compatible keep a b) {name : String}
    (h : name ∈ (keep.types a).map TypeDescriptor.name) : name ∈ (keep.types b).map TypeDescriptor.name := by
  obtain ⟨t, ht, rfl⟩ := List.mem_map.1 h
  obtain ⟨c, hc, -⟩ := (compatible_iff a b).1 hab t ht
  obtain ⟨hmem, hname⟩ := mem_of_named? hc
  exact List.mem_map.2 ⟨c, hmem, hname⟩

theorem compatible_both_iff {a b : Listing} (ha : a.Valid) (hb : b.Valid) :
    Compatible keep a b ∧ Compatible keep b a ↔ SameSurface keep a b := by
  constructor
  · rintro ⟨hab, hba⟩
    refine ⟨fun name => ⟨names_subset hab, names_subset hba⟩, ?_, ?_⟩
    · intro t ht u hu hname
      exact (retains_of_name_eq hb hab ht hu hname).id.symm
    · intro t ht u hu hname face
      have htu := retains_of_name_eq hb hab ht hu hname
      have hut := retains_of_name_eq ha hba hu ht hname.symm
      exact ⟨fun hface => htu.faces hface, fun hface => hut.faces hface⟩
  · intro h
    exact ⟨h.compatible hb, h.symm.compatible ha⟩

/-- **Compatibility is a preorder.** Whatever the filter, a valid listing is compatible with itself, and what is
compatible with a listing that is compatible with a third is compatible with the third, valid or not. Two valid listings are
compatible both ways exactly when they show the same. -/
theorem compatibility_preorder (keep : DescriptorFilter) :
    (∀ a : Listing, a.validate = .ok () → Compatible keep a a) ∧
      (∀ a b c : Listing, Compatible keep a b → Compatible keep b c → Compatible keep a c) ∧
      ∀ a b : Listing, a.validate = .ok () → b.validate = .ok () →
        (Compatible keep a b ∧ Compatible keep b a ↔ SameSurface keep a b) := by
  refine ⟨?_, fun _ _ _ => compatible_trans, ?_⟩
  · intro a ha
    exact compatible_refl ((Listing.validate_eq_ok_iff a).1 ha)
  · intro a b ha hb
    exact compatible_both_iff ((Listing.validate_eq_ok_iff a).1 ha) ((Listing.validate_eq_ok_iff b).1 hb)

/-- a class with a method and a field, and a class in a namespace of its own -/
def release : Listing :=
  ⟨"Lib", [((TypeDescriptor.ofClass "A").withMember (.method "M" "T")).withMember (.field "F" "T"),
    TypeDescriptor.ofClass "Hidden.B"]⟩

/-- the members in another order, and the other class gone -/
def patchRelease : Listing :=
  ⟨"Lib", [((TypeDescriptor.ofClass "A").withMember (.field "F" "T")).withMember (.method "M" "T")]⟩

/-- one class more -/
def minorRelease : Listing := patchRelease.add (TypeDescriptor.ofClass "C")

/-- outside a namespace two releases show the same, and a third adds to it -/
theorem compatibility_preorder_releases :
    let keep := DescriptorFilter.excludeNamespaces ["Hidden"]
    release.validate = .ok () ∧ patchRelease.validate = .ok () ∧ Compatible keep release release ∧
      (Compatible keep release patchRelease ∧ Compatible keep patchRelease minorRelease ∧
        Compatible keep release minorRelease) ∧
      Compatible keep patchRelease release ∧ SameSurface keep release patchRelease := by
  intro keep
  obtain ⟨hrefl, htrans, hboth⟩ := compatibility_preorder keep
  have hrelease : release.validate = .ok () := by decide
  have hpatch : patchRelease.validate = .ok () := by decide
  have hto : Compatible keep release patchRelease := (compatible_iff_violations _ _).2 (by decide)
  have hfrom : Compatible keep patchRelease release := (compatible_iff_violations _ _).2 (by decide)
  have hon : Compatible keep patchRelease minorRelease := (compatible_iff_violations _ _).2 (by decide)
  exact ⟨hrelease, hpatch, hrefl _ hrelease, ⟨hto, hon, htrans _ _ _ hto hon⟩, hfrom,
    (hboth _ _ hrelease hpatch).1 ⟨hto, hfrom⟩⟩

end ApiSurface.Comparison
