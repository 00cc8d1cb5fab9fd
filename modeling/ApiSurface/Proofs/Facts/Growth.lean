/-
Facts that grow: members are inserted into types, and types follow that nothing has mentioned before. Types keep their handles,
and references that occur in the facts from before are resolved as before.

`Grown.resolve`: nothing that is mentioned is resolved to an added type.
-/
import ApiSurface.Facts.Set
import ApiSurface.Proofs.AnyOrder
import ApiSurface.Proofs.TypeRef.Keys

namespace ApiSurface

/-! ## Inserted entries -/

/-- the entries of a list are related to those of another one in order, between entries of which only some may be inserted -/
inductive Inserted {α β : Type} (R : α → β → Prop) (extra : β → Prop) : List α → List β → Prop
  | nil : Inserted R extra [] []
  | keep {x : α} {y : β} {xs : List α} {ys : List β} : R x y → Inserted R extra xs ys → Inserted R extra (x :: xs) (y :: ys)
  | insert {y : β} {xs : List α} {ys : List β} : extra y → Inserted R extra xs ys → Inserted R extra xs (y :: ys)

namespace Inserted

variable {α β γ δ : Type} {R : α → β → Prop} {extra : β → Prop} {xs : List α} {ys : List β}

theorem filter {p : α → Bool} {q : β → Bool} (hpq : ∀ x ∈ xs, ∀ y, R x y → p x = q y) (h : Inserted R extra xs ys) :
    Inserted R extra (xs.filter p) (ys.filter q) := by
  induction h with
  | nil => exact nil
  | @keep x y xs ys hxy _ ih =>
    have hrest := ih fun x hx => hpq x (List.mem_cons_of_mem _ hx)
    rw [List.filter_cons, List.filter_cons, hpq x List.mem_cons_self y hxy]
    split
    · exact keep hxy hrest
    · exact hrest
  | @insert y xs ys hy _ ih =>
    rw [List.filter_cons]
    split
    · exact insert hy (ih hpq)
    · exact ih hpq

/-- what no inserted entry does, some entry of the one list does when some entry of the other does -/
theorem any_eq {p : α → Bool} {q : β → Bool} (hpq : ∀ x y, R x y → q y = p x) (hextra : ∀ y, extra y → q y = false)
    (h : Inserted R extra xs ys) : ys.any q = xs.any p := by
  induction h with
  | nil => rfl
  | keep hxy _ ih => rw [List.any_cons, List.any_cons, hpq _ _ hxy, ih]
  | insert hy _ ih => rw [List.any_cons, hextra _ hy, Bool.false_or, ih]

/-- lists are so related when their images are -/
theorem of_map {f : γ → α} {g : δ → β} {xs : List γ} {ys : List δ} (h : Inserted R extra (xs.map f) (ys.map g)) :
    Inserted (fun x y => R (f x) (g y)) (fun y => extra (g y)) xs ys := by
  induction ys generalizing xs with
  | nil =>
    cases xs with
    | nil => exact nil
    | cons x rest => cases h
  | cons y rest ih =>
    cases xs with
    | nil =>
      cases h with
      | insert hy hrest => exact insert hy (ih hrest)
    | cons x others =>
      cases h with
      | keep hxy hrest => exact keep hxy (ih hrest)
      | insert hy hrest => exact insert hy (ih hrest)

theorem subset {xs ys : List α} {extra : α → Prop} (h : Inserted (fun x y => x = y) extra xs ys) : xs ⊆ ys := by
  induction h with
  | nil => exact List.Subset.refl _
  | keep hxy _ ih => exact hxy ▸ List.cons_subset_cons _ ih
  | insert _ _ ih => exact List.subset_cons_of_subset _ ih

end Inserted

/-! ## References -/

/-- all references to types in the facts of a member -/
def MemberEntry.references (m : MemberEntry) : List TypeRef :=
  m.facts.returnType.toList ++ m.facts.explicitInterface.toList ++ m.facts.implements ++
    m.parameters.map ParameterFacts.type ++ m.generics.flatMap GenericFacts.constraints

/-- all references to types in the facts of a type -/
def TypeEntry.references (entry : TypeEntry) : List TypeRef :=
  entry.facts.reference :: entry.facts.baseType.toList ++ entry.facts.interfaces ++
    entry.generics.flatMap GenericFacts.constraints ++ entry.members.flatMap MemberEntry.references

/-- the member implements no interface -/
structure MemberEntry.Free (m : MemberEntry) : Prop where
  explicitInterface : m.facts.explicitInterface = none
  implements : m.facts.implements = []

/-- the type with members inserted -/
structure TypeEntry.Grown (extra : MemberEntry → Prop) (entry entry' : TypeEntry) : Prop where
  facts : entry'.facts = entry.facts
  generics : entry'.generics = entry.generics
  isDependency : entry'.isDependency = entry.isDependency
  members : Inserted (fun m m' => m' = m) extra entry.members entry'.members

namespace FactSet

/-- the definition keys of all named types that the facts mention -/
def keys (s : FactSet) : List String := (s.entries.flatMap TypeEntry.references).flatMap TypeRef.keys

/-- the facts with members inserted into types, followed by types that are not mentioned -/
structure Grown (extra : TypeEntry → MemberEntry → Prop) (s s' : FactSet) : Prop where
  identity : s'.identity = s.identity
  entries : ∃ kept added, s'.entries = kept ++ added ∧
    List.Forall₂ (fun entry => TypeEntry.Grown (extra entry) entry) s.entries kept ∧
    ∀ entry ∈ added, ∀ key, entry.facts.reference.definitionKey? = some key → key ∉ s.keys

/-- all named types in the reference are mentioned by the facts -/
def Mentions (s : FactSet) (r : TypeRef) : Prop := ∀ key ∈ r.keys, key ∈ s.keys

variable {s s' : FactSet} {h : TypeHandle} {entry : TypeEntry} {r : TypeRef}

theorem mentions_of_mem (hentry : s.entry? h = some entry) (hr : r ∈ entry.references) : s.Mentions r := fun _ hkey =>
  List.mem_flatMap.2 ⟨r, List.mem_flatMap.2 ⟨entry, List.mem_of_getElem? hentry, hr⟩, hkey⟩

theorem mentions_of_member (hentry : s.entry? h = some entry) {m : MemberEntry} (hm : m ∈ entry.members)
    (hr : r ∈ m.references) : s.Mentions r := by
  refine mentions_of_mem hentry ?_
  unfold TypeEntry.references
  exact List.mem_append_right _ (List.mem_flatMap.2 ⟨m, hm, hr⟩)

theorem mentions_of_definition? {facts : TypeFacts} (hfacts : s.definition? r = some facts) : s.Mentions facts.reference := by
  obtain ⟨h, -, hh⟩ := Option.bind_eq_some_iff.1 hfacts
  obtain ⟨entry, hentry, rfl⟩ := Option.map_eq_some_iff.1 hh
  exact mentions_of_mem hentry (by simp [TypeEntry.references])

theorem Mentions.substitute {i : TypeRef} (hi : s.Mentions i) (hr : s.Mentions r) :
    s.Mentions (i.substitute r.withoutByRef.arguments) := by
  intro key hkey
  rcases TypeRef.mem_keys_substitute hkey with hkey | ⟨a, ha, hkey⟩
  · exact hi key hkey
  · refine hr key ?_
    rw [← TypeRef.keys_withoutByRef]
    exact TypeRef.mem_keys_of_argument ha hkey

variable {extra : TypeEntry → MemberEntry → Prop} (hgrown : Grown extra s s')
include hgrown

namespace Grown

theorem entry? (hentry : s.entry? h = some entry) :
    ∃ entry', s'.entry? h = some entry' ∧ entry.Grown (extra entry) entry' := by
  obtain ⟨kept, added, hentries, halike, -⟩ := hgrown.entries
  obtain ⟨hlt, rfl⟩ := List.getElem?_eq_some_iff.1 hentry
  have hlt' : h.index < kept.length := halike.length_eq ▸ hlt
  refine ⟨kept[h.index], ?_, halike.get hlt hlt'⟩
  rw [FactSet.entry?, hentries, List.getElem?_append_left hlt', List.getElem?_eq_getElem hlt']

theorem length : s.entries.length ≤ s'.entries.length := by
  obtain ⟨kept, added, hentries, halike, -⟩ := hgrown.entries
  rw [hentries, List.length_append, halike.length_eq]
  exact Nat.le_add_right _ _

theorem facts? (hh : h.index < s.entries.length) : s'.facts? h = s.facts? h := by
  have hentry : s.entry? h = some s.entries[h.index] := List.getElem?_eq_getElem hh
  obtain ⟨entry', hentry', hentries⟩ := hgrown.entry? hentry
  rw [FactSet.facts?, FactSet.facts?, hentry, hentry', Option.map_some, Option.map_some, hentries.facts]

/-- **Mentioned types** are resolved as before. -/
theorem resolve (hr : s.Mentions r) : s'.resolve r = s.resolve r := by
  obtain ⟨kept, added, hentries, halike, hnew⟩ := hgrown.entries
  unfold FactSet.resolve
  cases hkey : r.withoutByRef.definitionKey? with
  | none => rfl
  | some key =>
    have hmentioned : key ∈ s.keys := by
      refine hr key ?_
      rw [← TypeRef.keys_withoutByRef]
      exact TypeRef.mem_keys_of_definitionKey? hkey
    have hadded : added.findIdx? (fun entry => entry.facts.reference.definitionKey? == some key) = none := by
      rw [List.findIdx?_eq_none_iff]
      intro entry hentry
      exact beq_false_of_ne fun heq => hnew entry hentry key heq hmentioned
    have hkept : kept.findIdx? (fun entry => entry.facts.reference.definitionKey? == some key) =
        s.entries.findIdx? fun entry => entry.facts.reference.definitionKey? == some key := by
      have hreferences := map_eq_of_forall₂ (f := fun entry => entry.facts.reference)
        (g := fun entry => entry.facts.reference) (fun _ _ hentry => congrArg TypeFacts.reference hentry.facts) halike
      have hindex := congrArg (List.findIdx? fun reference => reference.definitionKey? == some key) hreferences
      rwa [List.findIdx?_map, List.findIdx?_map] at hindex
    rw [Option.bind_some, Option.bind_some, find?, find?, hentries, List.findIdx?_append, hadded, hkept]
    cases s.entries.findIdx? fun entry => entry.facts.reference.definitionKey? == some key <;> rfl

end Grown

end FactSet

end ApiSurface
