/-
The parameters that a listing shows for a type are those in the last level of its name.

A name cuts the arguments of a type by the arities of its levels, from the inside out; extraction leaves out the parameters
whose positions come before the arity of the declaring type. Both cut at one place.

`getLast?_allotted`: the last level has what the declaring type leaves over.
`levels_shown`: so a type that has its own parameters as arguments is listed with those that the last level shows.
-/
import ApiSurface.Proofs.Extraction.Walk
import ApiSurface.Proofs.TypeRef.Levels

namespace ApiSurface

open Extracting TypeRef

/-! ## The last level -/

/-- **The last level has what the declaring type leaves over.** -/
theorem TypeRef.getLast?_allotted {r : TypeRef} (h : r.IsNest) (hlength : r.arguments.length = r.countedSum)
    (hsize : r.countedSum < UInt64.size) :
    ∃ name, (allotted r.levelNames r.arguments).getLast? = some (name, r.arguments.drop (FactSet.enclosingArity r).toNat) := by
  cases h with
  | @topLevel ns name own _ =>
    change own.length = counted name at hlength
    refine ⟨name, ?_⟩
    change some (name, own.take (counted name)) = some (name, own)
    rw [← hlength, List.take_length]
  | @nested ns name declaring own _ _ =>
    change own.length = declaring.countedSum + counted name at hlength
    change declaring.countedSum + counted name < UInt64.size at hsize
    have harity : declaring.totalArity.toNat = declaring.countedSum := toNat_totalArity_of_counted (by omega)
    refine ⟨name, ?_⟩
    change (allotted (declaring.levelNames ++ [name]) own).getLast? = some (name, own.drop declaring.totalArity.toNat)
    rw [allotted_concat, List.getLast?_concat, ← countedSum_eq_sum, harity, List.take_of_length_le]
    rw [List.length_drop]
    omega

/-! ## Parameters in order -/

/-- the parameter as an argument -/
def GenericFacts.asArgument (g : GenericFacts) : TypeRef := .parameter g.name g.position false

/-- the parameters are at the positions from zero on, in order -/
def InOrder (gs : List GenericFacts) : Prop := gs.map (fun g => g.position.toNat) = List.range gs.length

/-- the arguments of the type are its own parameters, in the order of their positions -/
def TypeEntry.IsOpen (entry : TypeEntry) : Prop :=
  ∃ ordered : List GenericFacts, ordered.Perm entry.generics ∧ InOrder ordered ∧
    entry.facts.reference.arguments = ordered.map GenericFacts.asArgument

namespace InOrder

variable {gs gs' : List GenericFacts}

theorem position_eq (h : InOrder gs) {index : Nat} (hindex : index < gs.length) : gs[index].position.toNat = index := by
  have hget := congrArg (fun positions => positions[index]?) h
  simpa [hindex] using hget

/-- the parameters from a position on are those after as many others -/
theorem filter_position (h : InOrder gs) (bound : UInt64) :
    gs.filter (fun g => decide (bound ≤ g.position)) = gs.drop bound.toNat := by
  have htake : (gs.take bound.toNat).filter (fun g => decide (bound ≤ g.position)) = [] := by
    refine List.filter_eq_nil_iff.2 fun g hg => ?_
    obtain ⟨index, hindex, rfl⟩ := List.mem_take_iff_getElem.1 hg
    rw [decide_eq_true_eq, UInt64.le_iff_toNat_le, h.position_eq]
    omega
  have hdrop : (gs.drop bound.toNat).filter (fun g => decide (bound ≤ g.position)) = gs.drop bound.toNat := by
    refine List.filter_eq_self.2 fun g hg => ?_
    obtain ⟨index, hindex, rfl⟩ := List.mem_drop_iff_getElem.1 hg
    rw [decide_eq_true_eq, UInt64.le_iff_toNat_le, h.position_eq]
    omega
  rw [← List.take_append_drop bound.toNat gs, List.filter_append, htake, List.nil_append, hdrop, List.take_append_drop]

/-- no two parameters have one position, so there is one order -/
theorem eq_of_perm (h : InOrder gs) (hperm : gs.Perm gs') (hsorted : gs'.Pairwise fun g g' => g.position ≤ g'.position) :
    gs = gs' := by
  have hpairwise : gs.Pairwise fun g g' => g.position ≤ g'.position := by
    have hrange : (gs.map fun g => g.position.toNat).Pairwise (· < ·) := h ▸ List.pairwise_lt_range
    exact (List.pairwise_map.1 hrange).imp fun hlt => UInt64.le_iff_toNat_le.2 (Nat.le_of_lt hlt)
  refine List.Perm.eq_of_pairwise (fun g g' hg hg' hle hge => ?_) hpairwise hsorted hperm
  obtain ⟨index, hindex, rfl⟩ := List.getElem_of_mem hg
  obtain ⟨index', hindex', rfl⟩ := List.getElem_of_mem (hperm.mem_iff.2 hg')
  have heq := congrArg UInt64.toNat (UInt64.le_antisymm hle hge)
  rw [h.position_eq, h.position_eq] at heq
  subst heq
  rfl

end InOrder

/-! ## Descriptions -/

namespace FactSet

variable {s : FactSet} {f : VisibilityFilter}

/-- a type is described with the parameters that belong to no declaring type -/
theorem ensures_describeType_generics (h : TypeHandle) (entry : TypeEntry) (members : List MemberHandle) :
    Ensures (s.describeType f h entry members) fun t =>
      t.name = entry.facts.reference.canonicalName ∧ t.genericParameters.map GenericParameter.name =
        (entry.generics.filter fun g => decide (enclosingArity entry.facts.reference ≤ g.position)).map
          GenericFacts.name := by
  unfold describeType
  refine (ensures_true _).bind fun _ _ => ?_
  refine (ensures_true _).bind fun interfaces _ => ?_
  have hnames : ∀ g context, Ensures (do
      let bounds ← s.describeGeneric f context g
      return (⟨g.name, bounds⟩ : GenericParameter)) fun p => p.name = g.name :=
    fun g context => (ensures_true _).bind fun bounds _ => ensures_pure rfl
  refine (Ensures.mapM fun g _ => hnames g _).bind fun generics hgenerics => ?_
  refine (ensures_true _).bind fun described _ => ensures_pure ⟨rfl, ?_⟩
  exact map_eq_of_forall₂ (fun _ _ heq => heq) hgenerics

/-- **Levels and parameters.** The canonical name of a nested type shows its levels, outermost first, each with as many
arguments as its name counts for, after those of the levels before it, whatever arguments the declaring types carry, as
long as a word can hold the number of arguments. And where the type is exported with its own parameters as arguments, it
is listed with exactly the parameters that the last level shows. -/
theorem levels_shown {r : TypeRef} (h : r.IsNest) (hlength : r.arguments.length = r.countedSum)
    (hsize : r.arguments.length < UInt64.size) :
    (r.canonicalName =
        qualifier r.outerNamespace ++ String.intercalate "+" ((allotted r.levelNames r.arguments).map levelText) ∧
      ∀ share ∈ allotted r.levelNames r.arguments, share.2.length = counted share.1) ∧
      ∀ (s : FactSet) (f : VisibilityFilter) (l : Listing), s.extract f = .ok l → ∀ entry ∈ s.exported f,
        entry.facts.reference = r → entry.IsOpen →
        (∃ t ∈ l.types, t.name = r.canonicalName) ∧ ∀ t ∈ l.types, t.name = r.canonicalName →
          ∃ name last, (allotted r.levelNames r.arguments).getLast? = some (name, last) ∧
            (t.genericParameters.map GenericParameter.name).Perm (last.map canonicalName) ∧
            (entry.generics.Pairwise (fun g g' => g.position ≤ g'.position) →
              t.genericParameters.map GenericParameter.name = last.map canonicalName) := by
  rw [hlength] at hsize
  refine ⟨⟨canonicalName_allotted h hlength hsize, length_of_mem_allotted ?_⟩, ?_⟩
  · rw [hlength, countedSum_eq_sum]
  rintro s f l hl entry hentry rfl ⟨ordered, hperm, horder, harguments⟩
  have hdescribed := anyOrder_of_extract f (fun h entry _ => ensures_describeType_generics (s := s) h entry _) hl
  obtain ⟨t₀, ht₀, hname₀, hgenerics⟩ := hdescribed.symm.exists_mem hentry
  refine ⟨⟨t₀, ht₀, hname₀⟩, fun t ht hname => ?_⟩
  obtain rfl : t = t₀ := List.inj_on_of_nodup_map (s.extract_spec f hl).1 ht ht₀ (hname.trans hname₀.symm)
  obtain ⟨name, hlast⟩ := getLast?_allotted h hlength hsize
  have hprinted : ((entry.facts.reference.arguments.drop (enclosingArity entry.facts.reference).toNat).map canonicalName) =
      (ordered.filter fun g => decide (enclosingArity entry.facts.reference ≤ g.position)).map GenericFacts.name := by
    rw [harguments, horder.filter_position, ← List.map_drop, List.map_map]
    rfl
  refine ⟨name, _, hlast, ?_, fun hsorted => ?_⟩
  · rw [hprinted, hgenerics]
    exact ((hperm.filter _).map _).symm
  · rw [hprinted, hgenerics, horder.eq_of_perm hperm hsorted]

/-- entries two levels inside a map; the level between takes no arguments -/
def entryType : TypeRef :=
  .named none "Entry\x602" (some (.named none "Part" (some (.named (some "Lib") "Map\x601" none [])) []))
    [.parameter "K" 0 false, .parameter "V" 1 false, .parameter "W" 2 false]

def unbounded (name : String) (position : UInt64) : GenericFacts := ⟨name, position, false, false, false, []⟩

def entryClass : TypeEntry :=
  { bareType .classType .pub entryType [] with generics := [unbounded "K" 0, unbounded "V" 1, unbounded "W" 2] }

def entryListing : Listing :=
  ⟨"Lib", [((TypeDescriptor.ofClass "Lib.Map<K>+Part+Entry<V, W>").withGeneric (.unconstrained "V")).withGeneric
    (.unconstrained "W")]⟩

theorem levels_shown_entries :
    entryType.canonicalName = "Lib.Map<K>+Part+Entry<V, W>" ∧
      FactSet.extract ⟨"Lib", [entryClass]⟩ .standard = .ok entryListing ∧
      ∀ t ∈ entryListing.types, t.genericParameters.map GenericParameter.name = ["V", "W"] := by
  have hnest : entryType.IsNest := .nested none _ _ (.nested none _ _ (.topLevel _ (by decide)) fun _ => rfl) fun _ => rfl
  have hlevels := levels_shown hnest (by decide) (by decide)
  have hname : entryType.canonicalName = "Lib.Map<K>+Part+Entry<V, W>" := hlevels.1.1
  have hexported : FactSet.isExported ⟨"Lib", [entryClass]⟩ .standard entryClass.facts = true := by
    rw [isExported_eq]
    rfl
  have hentry : entry? ⟨"Lib", [entryClass]⟩ ⟨0⟩ = some entryClass := rfl
  have hmodule : moduleTypes ⟨"Lib", [entryClass]⟩ = [⟨0⟩] := rfl
  have hextract : FactSet.extract ⟨"Lib", [entryClass]⟩ .standard = .ok entryListing := by
    refine extract_of_outcome _ ?_ (by decide) (by decide)
    simp only [hmodule, describeTypes, hentry, hexported, if_true]
    rfl
  have hopen : entryClass.IsOpen := ⟨entryClass.generics, .refl _, rfl, rfl⟩
  have hlisted : entryClass ∈ exported ⟨"Lib", [entryClass]⟩ .standard :=
    List.mem_filter.2 ⟨List.mem_singleton_self _, by rw [hexported]; rfl⟩
  refine ⟨hname, hextract, fun t ht => ?_⟩
  have hshown : t.name = entryType.canonicalName := by rw [List.mem_singleton.1 ht, hname]; rfl
  obtain ⟨name, last, hlast, -, hordered⟩ := (hlevels.2 _ _ _ hextract entryClass hlisted rfl hopen).2 t ht hshown
  rw [hordered (by decide)]
  cases hlast
  rfl

end FactSet

end ApiSurface
