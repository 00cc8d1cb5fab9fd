/-
Fact sets that are loaded and saved again.

A document may spell its references as arrays, leave out what has a default and name the members of an object in any order,
at any depth that is read. What is saved for it says all that was loaded, in no more depth.

`getElem?_registered`: the handles that adding types one by one registers are those of the first type with each key.
`load_saved`: what was saved is loaded as the same set.
-/
import ApiSurface.Extraction.Basic
import ApiSurface.Proofs.Facts.Document

namespace ApiSurface.FactSet

open Json

variable {s : FactSet} {key : String} {h : TypeHandle}

/-! ## Handles by key -/

/-- a type with a key takes its handle into the index, unless another has the key already -/
def register (index : Std.HashMap String TypeHandle) (entry : TypeEntry) (h : TypeHandle) : Std.HashMap String TypeHandle :=
  match entry.facts.reference.definitionKey? with
  | some key => index.insertIfNew key h
  | none => index

/-- the index of types that are added one by one, the first with a number -/
def registered (index : Std.HashMap String TypeHandle) : List TypeEntry → Nat → Std.HashMap String TypeHandle
  | [], _ => index
  | entry :: rest, n => registered (register index entry ⟨n⟩) rest (n + 1)

theorem getElem?_register (index : Std.HashMap String TypeHandle) (entry : TypeEntry) (h : TypeHandle) (key : String) :
    (register index entry h)[key]? =
      index[key]?.or (if entry.facts.reference.definitionKey? = some key then some h else none) := by
  unfold register
  cases hkey : entry.facts.reference.definitionKey? with
  | none => rw [if_neg nofun, Option.or_none]
  | some own =>
    dsimp only
    rw [Std.HashMap.getElem?_insertIfNew]
    by_cases heq : own = key
    · subst heq
      cases hindex : index[own]? with
      | none =>
        have hnew : own ∉ index := by
          rw [Std.HashMap.mem_iff_isSome_getElem?, hindex]
          nofun
        rw [if_pos ⟨beq_self_eq_true own, hnew⟩, if_pos rfl, Option.none_or]
      | some known =>
        have hknown : own ∈ index := Std.HashMap.mem_iff_isSome_getElem?.2 (by rw [hindex, Option.isSome_some])
        rw [if_neg fun hnew => hnew.2 hknown, Option.some_or]
    · rw [if_neg fun hsame => heq (eq_of_beq hsame.1), if_neg fun hsame => heq (Option.some.inj hsame), Option.or_none]

theorem getElem?_registered_from (entries : List TypeEntry) (index : Std.HashMap String TypeHandle) (n : Nat) (key : String) :
    (registered index entries n)[key]? =
      index[key]?.or ((entries.findIdx? fun entry => entry.facts.reference.definitionKey? == some key).map fun i => ⟨n + i⟩) := by
  induction entries generalizing index n with
  | nil => rw [registered, List.findIdx?_nil, Option.map_none, Option.or_none]
  | cons entry rest ih =>
    rw [registered, ih, getElem?_register, Option.or_assoc, List.findIdx?_cons]
    by_cases hkey : entry.facts.reference.definitionKey? = some key
    · rw [if_pos hkey, if_pos (beq_iff_eq.2 hkey), Option.some_or, Option.map_some, Nat.add_zero]
    · rw [if_neg hkey, if_neg (mt beq_iff_eq.1 hkey), Option.none_or, Option.map_map]
      congr 2
      funext i
      simp only [Function.comp_apply, TypeHandle.mk.injEq]
      omega

/-- **The index** that grows with the types finds what is found among them. -/
theorem getElem?_registered (s : FactSet) (key : String) : (registered ∅ s.entries 0)[key]? = s.find? key := by
  rw [getElem?_registered_from, Std.HashMap.getElem?_empty, Option.none_or]
  unfold find?
  congr 1
  funext i
  rw [Nat.zero_add]

/-- the type with the handle has the key, and no earlier one has it -/
def FirstWith (s : FactSet) (key : String) (h : TypeHandle) : Prop :=
  (∃ facts, s.facts? h = some facts ∧ facts.reference.definitionKey? = some key) ∧
    ∀ earlier facts, earlier.index < h.index → s.facts? earlier = some facts → facts.reference.definitionKey? ≠ some key

theorem find?_eq_some_iff_firstWith : s.find? key = some h ↔ s.FirstWith key h := by
  have hfacts : ∀ (index : Nat) (hindex : index < s.entries.length), s.facts? ⟨index⟩ = some s.entries[index].facts := by
    intro index hindex
    rw [facts?, entry?, List.getElem?_eq_getElem hindex, Option.map_some]
  constructor
  · intro hfind
    obtain ⟨index, hindex, rfl⟩ := Option.map_eq_some_iff.1 hfind
    obtain ⟨hlt, hkey, hearlier⟩ := List.findIdx?_eq_some_iff_getElem.1 hindex
    refine ⟨⟨_, hfacts index hlt, eq_of_beq hkey⟩, ?_⟩
    rintro ⟨k⟩ facts hk hfound hsame
    have hknown : k < index := hk
    rw [hfacts k (Nat.lt_trans hknown hlt)] at hfound
    obtain rfl := Option.some.inj hfound
    exact absurd (beq_iff_eq.2 hsame) (by simpa using hearlier k hknown)
  · rintro ⟨⟨facts, hfound, hkey⟩, hearlier⟩
    obtain ⟨entry, hentry, rfl⟩ := Option.map_eq_some_iff.1 hfound
    obtain ⟨hlt, rfl⟩ := List.getElem?_eq_some_iff.1 hentry
    refine Option.map_eq_some_iff.2 ⟨h.index, List.findIdx?_eq_some_iff_getElem.2 ⟨hlt, beq_iff_eq.2 hkey, ?_⟩, rfl⟩
    intro k hk
    have hother := hearlier ⟨k⟩ _ hk (hfacts k (Nat.lt_trans hk hlt))
    simpa using hother

/-! ## Saving -/

/-- a set that was loaded can be saved, and is loaded again -/
theorem load_pretty {text : String} (hload : load text = .ok s) (hfree : s.FloatFree) : load s.toJson.pretty = .ok s := by
  obtain ⟨x, hread, hload⟩ := bind_eq_ok.1 hload
  obtain ⟨_, -, hload⟩ := bind_eq_ok.1 hload
  cases hload
  have hfits : Fits 127 s.toJson :=
    within_decoder .streamed 0 127 _ s rfl (leveled_ofText text) hread (by decide) hfree
  unfold load
  rw [(read_pretty decoder hfits (by decide)).1]
  exact reads hfree id rearranges_id .streamed

/-- **Loading and saving is stable.** Whatever text a set without doubles was loaded from, what is saved for it is loaded as
a set with the same identity and the same types in the same order. References have the same handles in it, those of the
first type with their key, which are also the ones that adding the types one by one registers; and the same is extracted. -/
theorem load_saved {text : String} (hload : load text = .ok s) (hfree : s.FloatFree) :
    ∃ s', load s.toJson.pretty = .ok s' ∧ s'.identity = s.identity ∧ s'.entries = s.entries ∧
      (∀ r, s'.resolve r = s.resolve r) ∧
      (∀ r, s'.resolve r = r.withoutByRef.definitionKey?.bind fun key => (registered ∅ s'.entries 0)[key]?) ∧
      (∀ r h, s'.resolve r = some h ↔ ∃ key, r.withoutByRef.definitionKey? = some key ∧ s.FirstWith key h) ∧
      ∀ f, s'.extract f = s.extract f := by
  refine ⟨s, load_pretty hload hfree, rfl, rfl, fun r => rfl, fun r => ?_, fun r h => ?_, fun f => rfl⟩
  · unfold resolve
    simp only [getElem?_registered]
  · unfold resolve
    rw [Option.bind_eq_some_iff]
    simp only [find?_eq_some_iff_firstWith]

/-- two types with one key, under keys in no order; references and constants are arrays, and defaults are left out -/
def sparseDocument : Json :=
  let circle : Json := .array [.string "named", .null, .string "Circle"]
  let factor : Json := .array [.string "factor", .array [.string "by_ref", circle], .bool true,
    .array [.string "int", .nat 1]]
  let scale : Json := .object (member "name" (.string "Scale") ++ member "kind" (.string "Method") ++
    member "visibility" (.string "Public") ++ member "parameters" (.array [factor]))
  .object (member "types" (.array [
    .object (member "kind" (.string "Class") ++ member "members" (.array [scale]) ++
      member "visibility" (.string "Public") ++ member "reference" circle),
    .object (member "visibility" (.string "Public") ++ member "kind" (.string "Class") ++ member "reference" circle)]) ++
    member "assembly_identity" (.string "Shapes"))

/-- the facts in the document -/
def sparse : FactSet where
  identity := "Shapes"
  entries :=
    let circle : TypeFacts := ⟨.topLevel "" "Circle", .pub, .classType, false, false, none, []⟩
    let scale : MemberFacts :=
      ⟨.method, "Scale", .pub, none, false, false, false, false, false, false, false, false, none, none, []⟩
    [⟨circle, [], [⟨scale, [⟨"factor", .byRef (.topLevel "" "Circle"), true, some (.int 1), false⟩], []⟩], false⟩,
      ⟨circle, [], [], false⟩]

/-- the document is loaded, and again once it was saved; the circle stays the first one -/
theorem load_saved_sparse : load sparseDocument.compact = .ok sparse ∧ sparse.FloatFree ∧
    ∃ s', load sparse.toJson.pretty = .ok s' ∧ s'.entries = sparse.entries ∧
      s'.resolve (.topLevel "" "Circle") = some ⟨0⟩ := by
  have hfits : Fits 127 sparseDocument := by
    simp [sparseDocument, member, fits_array_iff, fits_object_iff, Fits.string, Fits.null, Fits.bool, Fits.nat, UInt64.size]
  have hload : load sparseDocument.compact = .ok sparse := by
    unfold load
    rw [read_compact decoder hfits (by decide)]
    rfl
  have hfree : sparse.FloatFree := by
    simp [FloatFree, TypeEntry.FloatFree, MemberEntry.FloatFree, MemberFacts.FloatFree, ParameterFacts.FloatFree,
      Literal.FloatFree, sparse]
  obtain ⟨s', hsaved, -, hentries, hresolve, -⟩ := load_saved hload hfree
  refine ⟨hload, hfree, s', hsaved, hentries, ?_⟩
  rw [hresolve]
  decide

end ApiSurface.FactSet
