/-
Canonical names identify references: the arguments of a name stand at the levels that take them, so the reference can be
made again from the tree of its name.

`reference_tree`: a reference is what the tree of its name names, given which words are parameters.
`canonicalName_inj`: references of one canonical name are one reference, as long as words can hold their arities.
`oversized_marker_unseen`: a marker beyond all words does not show in a name.
-/
import ApiSurface.Proofs.TypeRef.Tree

namespace ApiSurface

open NameTree

namespace TypeRef

/-! ## The reference of a tree -/

/-- a bare name stands for a parameter if it is the name of one -/
def asParameter (parameters : List String) : TypeRef → TypeRef
  | .named none name none [] => if name ∈ parameters then .parameter name 0 false else .named none name none []
  | r => r

end TypeRef

namespace NameTree

open TypeRef

variable (parameters : List String)

mutual

/-- what a tree names, its arguments read by what the parameters are called -/
def definition : NameTree → TypeRef
  | .topLevel ns name arguments => .named ns (marked name arguments.length) none (references arguments)
  | .nested outer name arguments =>
    .named none (marked name arguments.length) (some ((definition outer).withArguments []))
      ((definition outer).arguments ++ references arguments)
  | .nullable element =>
    .named (some nullableNamespace) nullableName none [asParameter parameters (definition element)]
  | .array element commas => .array (asParameter parameters (definition element)) (UInt32.ofNat (commas + 1))
  | .pointer element => .pointer (asParameter parameters (definition element))

def references : List NameTree → List TypeRef
  | [] => []
  | t :: rest => asParameter parameters (definition t) :: references rest

end

/-- the reference that a tree names -/
def reference (t : NameTree) : TypeRef := asParameter parameters (definition parameters t)

theorem references_eq (ts : List NameTree) : references parameters ts = ts.map (reference parameters) := by
  induction ts with
  | nil => rfl
  | cons t rest ih =>
    rw [references, ih, List.map_cons]
    rfl

end NameTree

namespace TypeRef

variable {parameters : List String}

theorem IsLevelName.marked_stripArity {name : String} (h : IsLevelName name) :
    marked (TypeRef.stripArity name) (markerOf name) = name := by
  obtain ⟨base, arity, hbase, rfl⟩ := h
  rw [stripArity_marked hbase.not_mem, markerOf_marked hbase.not_mem]

theorem IsDefinition.withArguments_nil {d : TypeRef} (h : IsDefinition d) : d.withArguments [] = d := by
  cases h <;> rfl

theorem withArguments_withArguments (d : TypeRef) (rs rs' : List TypeRef) :
    (d.withArguments rs).withArguments rs' = d.withArguments rs' := by
  cases d <;> rfl

theorem IsDefinition.arguments_withArguments {d : TypeRef} (h : IsDefinition d) (rs : List TypeRef) :
    (d.withArguments rs).arguments = rs := by
  cases h <;> rfl

/-- **A definition with its arguments** is what the tree of its name names, if the arguments are as many as it takes. -/
theorem definition_treeWith {d : TypeRef} (h : IsDefinition d) (hsize : d.markerSum < UInt64.size) {ts : List NameTree}
    (hts : ts.length = d.markerSum) :
    definition parameters (treeWith (some ts) d) = d.withArguments (ts.map (reference parameters)) := by
  induction h generalizing ts with
  | @topLevel ns name hns hname =>
    have hlevel : definition parameters (.topLevel ns (TypeRef.stripArity name) ts) =
        .named ns name none (ts.map (reference parameters)) := by
      rw [definition, references_eq, hts, markerSum, levelSum, hname.marked_stripArity]
    simp only [treeWith, Option.getD_some]
    split
    · next only =>
      split_ifs with hnullable
      · obtain ⟨rfl, rfl⟩ := hnullable
        rfl
      · exact hlevel
    · exact hlevel
  | @nested declaring name hdeclaring hname ih =>
    rw [markerSum_nested] at hsize hts
    have houter : definition parameters (treeWith (some (ts.take declaring.markerSum)) declaring) =
        declaring.withArguments ((ts.take declaring.markerSum).map (reference parameters)) :=
      ih (by omega) (by rw [List.length_take]; omega)
    have hown : (ts.drop declaring.markerSum).length = markerOf name := by
      rw [List.length_drop]
      omega
    rw [treeWith_nested hdeclaring (by omega) (by omega), definition, houter, hown, hname.marked_stripArity,
      references_eq, withArguments_withArguments, hdeclaring.withArguments_nil, hdeclaring.arguments_withArguments,
      ← List.map_append, List.take_append_drop]
    rfl

/-- a part can be made again from its name, given what the parameters are called -/
structure Legible (parameters : List String) (s : TypeRef) : Prop where
  formed : Formed s
  countable : s.markerSum < UInt64.size
  parameter : ∀ name, s.parameterName? = some name → name ∈ parameters
  global : ∀ name, s.globalName? = some name → name ∉ parameters

theorem asParameter_named {ns : Option String} {name : String} {declaring : Option TypeRef} {own : List TypeRef}
    (h : ∀ bare, globalName? (.named ns name declaring own) = some bare → bare ∉ parameters) :
    asParameter parameters (.named ns name declaring own) = .named ns name declaring own := by
  unfold asParameter
  split
  · next bare heq =>
    cases heq
    rw [if_neg (h _ rfl)]
  · rfl

/-- **A reference is what the tree of its name names**, up to the positions of parameters. -/
theorem reference_tree {r : TypeRef} (h : ∀ s ∈ r.parts, Legible parameters s) :
    reference parameters r.tree = r.withoutPositions := by
  induction r using inductionOn with
  | named ns name declaring own ih =>
    obtain ⟨⟨hdefinition, hlength⟩, hsize, -, hglobal⟩ := h _ (mem_parts _)
    have hsum : markerSum (.named ns name declaring []) = markerSum (.named ns name declaring own) := by
      cases declaring <;> rfl
    have hown : own.map (fun r => reference parameters r.tree) = withoutPositionsAll own := by
      rw [withoutPositionsAll_eq]
      apply List.map_congr_left
      intro r hr
      exact ih r hr fun s hs => h s (List.mem_cons_of_mem _ (mem_partsOf.2 ⟨r, hr, hs⟩))
    have htree : definition parameters (tree (.named ns name declaring own)) =
        .named ns name declaring (withoutPositionsAll own) := by
      unfold tree
      rw [treeWith_none, definition_treeWith hdefinition (hsum ▸ hsize), treesOf_eq, List.map_map]
      · exact congrArg (TypeRef.named ns name declaring) hown
      · rw [treesOf_eq, List.length_map, hlength, toNat_totalArity_of_markers hsize, hsum]
    rw [reference, htree, asParameter_named, withoutPositions]
    intro bare hbare
    refine hglobal bare ?_
    cases ns <;> cases declaring <;> simp_all [globalName?]
  | parameter name position ofMethod =>
    have hmem : name ∈ parameters := (h _ (mem_parts _)).parameter name rfl
    simp [reference, tree, treeWith, definition, references, marked, asParameter, hmem, withoutPositions]
  | array element rank ih =>
    have hrank : 1 ≤ rank := (h _ (mem_parts _)).formed
    have helement : reference parameters element.tree = element.withoutPositions :=
      ih fun s hs => h s (List.mem_cons_of_mem _ hs)
    have hcommas : UInt32.ofNat (rank.toNat - 1 + 1) = rank := by
      have hnat : 1 ≤ rank.toNat := hrank
      rw [Nat.sub_add_cancel hnat, UInt32.ofNat_toNat]
    calc reference parameters (tree (.array element rank))
        = .array (reference parameters element.tree) (UInt32.ofNat (rank.toNat - 1 + 1)) := rfl
      _ = withoutPositions (.array element rank) := by rw [helement, hcommas, withoutPositions]
  | byRef element ih => exact (h (.byRef element) (mem_parts _)).formed.elim
  | pointer element ih =>
    have helement : reference parameters element.tree = element.withoutPositions :=
      ih fun s hs => h s (List.mem_cons_of_mem _ hs)
    calc reference parameters (tree (.pointer element)) = .pointer (reference parameters element.tree) := rfl
      _ = withoutPositions (.pointer element) := by rw [helement, withoutPositions]

/-! ## Identity -/

/-- **Canonical names identify references.** Well-formed references whose arities words can hold are the same as soon as
their names are, their parameters known by name, if no parameter is called like a type outside all namespaces. -/
theorem canonicalName_inj {a b : TypeRef} (ha : a.WellFormed) (hb : b.WellFormed) (hacount : a.Countable)
    (hbcount : b.Countable) (hbare : Unmistakable (a.parts ++ b.parts)) (h : a.canonicalName = b.canonicalName) :
    a.withoutPositions = b.withoutPositions := by
  obtain ⟨parameters, hparameters⟩ : ∃ names, names = (a.parts ++ b.parts).filterMap parameterName? := ⟨_, rfl⟩
  have hlegible : ∀ s ∈ a.parts ++ b.parts, Formed s → s.markerSum < UInt64.size → Legible parameters s := by
    intro s hs hformed hsize
    refine ⟨hformed, hsize, ?_, ?_⟩
    · intro name hname
      rw [hparameters]
      exact List.mem_filterMap.2 ⟨s, hs, hname⟩
    · intro name hname hmem
      rw [hparameters] at hmem
      obtain ⟨t, ht, hparameter⟩ := List.mem_filterMap.1 hmem
      exact hbare t ht s hs name hparameter hname
  have htree : a.tree = b.tree := by
    apply text_inj (readable_tree ha) (readable_tree hb)
    rw [text_tree, text_tree, h]
  have ha' : reference parameters a.tree = a.withoutPositions :=
    reference_tree fun s hs => hlegible s (List.mem_append_left _ hs) (ha s hs) (hacount s hs)
  have hb' : reference parameters b.tree = b.withoutPositions :=
    reference_tree fun s hs => hlegible s (List.mem_append_right _ hs) (hb s hs) (hbcount s hs)
  rw [← ha', ← hb', htree]

/-- the entries of a map from a parameter to arrays of optional numbers -/
def entryOf (position : UInt64) (ofMethod : Bool) : TypeRef :=
  .named none "Entry" (some (.named (some "N.M") "Map\x602" none []))
    [.parameter "T" position ofMethod,
      .array (.named (some "System") "Nullable\x601" none [.named (some "System") "Int32" none []]) 2]

theorem wellFormed_entryOf (position : UInt64) (ofMethod : Bool) : (entryOf position ofMethod).WellFormed := by
  have hsystem : ∀ words ∈ some "System", IsNamespace words := by
    rintro _ ⟨⟩
    exact ⟨["System"], by decide, by decide, by decide⟩
  have hmap : IsDefinition (.named (some "N.M") "Map\x602" none []) := by
    refine .topLevel ?_ ⟨"Map", 2, by decide, by decide⟩
    rintro _ ⟨⟩
    exact ⟨["N", "M"], by decide, by decide, by decide⟩
  intro s hs
  simp only [entryOf, parts, partsOf, List.append_nil, List.cons_append, List.nil_append, List.mem_cons,
    List.not_mem_nil, or_false] at hs
  rcases hs with rfl | rfl | rfl | rfl | rfl
  · exact ⟨.nested hmap ⟨"Entry", 0, by decide, by decide⟩, rfl⟩
  · have hname : IsIdentifier "T" := by decide
    exact hname
  · have hrank : (1 : UInt32) ≤ 2 := by decide
    exact hrank
  · exact ⟨.topLevel hsystem ⟨"Nullable", 1, by decide, by decide⟩, by decide⟩
  · exact ⟨.topLevel hsystem ⟨"Int32", 0, by decide, by decide⟩, by decide⟩

/-- entries of one name differ in nothing but what their parameter belongs to -/
theorem canonicalName_inj_entries :
    (entryOf 0 false).WellFormed ∧ (entryOf 1 true).WellFormed ∧ (entryOf 0 false).Countable ∧
      (entryOf 1 true).Countable ∧ Unmistakable ((entryOf 0 false).parts ++ (entryOf 1 true).parts) ∧
      (entryOf 0 false).canonicalName = (entryOf 1 true).canonicalName ∧
      (entryOf 0 false).withoutPositions = (entryOf 1 true).withoutPositions := by
  have hfalse : (entryOf 0 false).Countable := by unfold Countable; decide
  have htrue : (entryOf 1 true).Countable := by unfold Countable; decide
  have hbare : Unmistakable ((entryOf 0 false).parts ++ (entryOf 1 true).parts) := by
    have hnone : ∀ t ∈ (entryOf 0 false).parts ++ (entryOf 1 true).parts, t.globalName? = none := by decide
    intro s _ t ht name _
    rw [hnone t ht]
    nofun
  have hname : (entryOf 0 false).canonicalName = (entryOf 1 true).canonicalName := by decide
  exact ⟨wellFormed_entryOf 0 false, wellFormed_entryOf 1 true, hfalse, htrue, hbare, hname,
    canonicalName_inj (wellFormed_entryOf 0 false) (wellFormed_entryOf 1 true) hfalse htrue hbare hname⟩

/-- **A marker beyond all words goes unseen**: the type takes no arguments then, its name shows no marker, and so it has
the name of the type without one. -/
theorem oversized_marker_unseen :
    let plain : TypeRef := .topLevel "" "C"
    let oversized : TypeRef := .topLevel "" "C\x6018446744073709551616"
    plain.WellFormed ∧ oversized.WellFormed ∧ Unmistakable (plain.parts ++ oversized.parts) ∧
      plain.canonicalName = oversized.canonicalName ∧ plain.withoutPositions ≠ oversized.withoutPositions := by
  intro plain oversized
  have hplain : plain.WellFormed := by
    intro s hs
    rw [List.mem_singleton.1 hs]
    exact ⟨.topLevel nofun ⟨"C", 0, by decide, by decide⟩, by decide⟩
  have hoversized : oversized.WellFormed := by
    intro s hs
    rw [List.mem_singleton.1 hs]
    exact ⟨.topLevel nofun ⟨"C", 18446744073709551616, by decide, by decide⟩, by decide⟩
  have hbare : Unmistakable (plain.parts ++ oversized.parts) := by
    have hnone : ∀ s ∈ plain.parts ++ oversized.parts, s.parameterName? = none := by decide
    intro s hs t _ name hname
    rw [hnone s hs] at hname
    cases hname
  exact ⟨hplain, hoversized, hbare, by decide, by decide⟩

end TypeRef

end ApiSurface
