/-
The tree of a reference's canonical name.

`text_tree`: its text is the name.
`treeWith_nested`: every level of a nested type shows the arguments that it takes itself.
`readable_tree`: the name of a well-formed reference can be read.
-/
import ApiSurface.Proofs.TypeRef.NameTree
import Mathlib.Tactic.SplitIfs

namespace ApiSurface

open NameTree

namespace TypeRef

/-! ## The tree of a name -/

mutual

/-- the tree of a reference's name; the trees given, if any, stand for those of a named type's own arguments -/
def treeWith (given : Option (List NameTree)) : TypeRef → NameTree
  | .parameter name _ _ => .topLevel none name []
  | .byRef element => treeWith none element
  | .array element rank => .array (treeWith none element) (rank.toNat - 1)
  | .pointer element => .pointer (treeWith none element)
  | .named ns name none own =>
    let trees := given.getD (treesOf own)
    match trees with
    | [only] =>
      if ns = some nullableNamespace ∧ name = nullableName then .nullable only
      else .topLevel ns (stripArity name) trees
    | _ => .topLevel ns (stripArity name) trees
  | .named _ name (some declaring) own =>
    let trees := given.getD (treesOf own)
    let bound := declaring.totalArity.toNat
    if 0 < bound ∧ bound ≤ trees.length then
      .nested (treeWith (some (trees.take bound)) declaring) (stripArity name) (trees.drop bound)
    else .nested (treeWith none declaring) (stripArity name) trees

def treesOf : List TypeRef → List NameTree
  | [] => []
  | r :: rest => treeWith none r :: treesOf rest

end

def tree (r : TypeRef) : NameTree := treeWith none r

theorem treesOf_eq (rs : List TypeRef) : treesOf rs = rs.map tree := by
  induction rs with
  | nil => rfl
  | cons r rest ih =>
    rw [treesOf, ih, List.map_cons]
    rfl

mutual

/-- **The text of the tree is the name.** -/
theorem text_treeWith (given : Option (List NameTree)) (r : TypeRef) :
    (treeWith given r).text = nameWith (given.map texts) r := by
  have hgiven : ∀ own, texts (treesOf own) = namesOf own →
      (given.map texts).getD (namesOf own) = texts (given.getD (treesOf own)) := by
    intro own hown
    cases given with
    | none => exact hown.symm
    | some ts => rfl
  cases r with
  | parameter name position ofMethod => simp [treeWith, nameWith, text, texts, qualifier, angled]
  | byRef element => simpa [treeWith, nameWith] using text_treeWith none element
  | array element rank =>
    have helement : (treeWith none element).text = nameWith none element := text_treeWith none element
    simp [treeWith, nameWith, text, commas, helement]
  | pointer element =>
    have helement : (treeWith none element).text = nameWith none element := text_treeWith none element
    simp [treeWith, nameWith, text, helement]
  | named ns name declaring own =>
    have hnames := hgiven own (texts_treesOf own)
    cases declaring with
    | none =>
      simp only [treeWith, nameWith, hnames]
      rcases given.getD (treesOf own) with _ | ⟨only, _ | ⟨next, rest⟩⟩
      · simp [text, texts]
      · by_cases hnullable : ns = some nullableNamespace ∧ name = nullableName
        · simp [hnullable, text, texts]
        · simp [hnullable, text, texts]
      · simp [text, texts]
    | some declaring =>
      have htexts : ∀ ts : List NameTree, (texts ts).length = ts.length ∧ ∀ n, (texts ts).take n = texts (ts.take n) ∧
          (texts ts).drop n = texts (ts.drop n) := by
        intro ts
        simp [texts_eq, List.map_take, List.map_drop]
      obtain ⟨hlength, hsplit⟩ := htexts (given.getD (treesOf own))
      have hbound : ∀ ts, (treeWith (some ts) declaring).text = nameWith (some (texts ts)) declaring :=
        fun ts => text_treeWith (some ts) declaring
      have hfree : (treeWith none declaring).text = nameWith none declaring := text_treeWith none declaring
      simp only [treeWith, nameWith, hnames, hlength, (hsplit _).1, (hsplit _).2]
      split_ifs with h
      · simp [text, hbound]
      · simp [text, hfree]

theorem texts_treesOf (rs : List TypeRef) : texts (treesOf rs) = namesOf rs := by
  cases rs with
  | nil => rfl
  | cons r rest =>
    have hfirst : (treeWith none r).text = nameWith none r := text_treeWith none r
    rw [treesOf, texts, namesOf, hfirst, texts_treesOf rest]

end

theorem text_tree (r : TypeRef) : r.tree.text = r.canonicalName := text_treeWith none r

/-! ## Levels -/

theorem treeWith_none (ns : Option String) (name : String) (declaring : Option TypeRef) (own : List TypeRef) :
    treeWith none (.named ns name declaring own) = treeWith (some (treesOf own)) (.named ns name declaring []) := by
  cases declaring <;> simp [treeWith]

theorem IsDefinition.treeWith_none {d : TypeRef} (h : IsDefinition d) : treeWith none d = treeWith (some []) d := by
  cases h <;> rw [TypeRef.treeWith_none] <;> rfl

/-- **A nested level** leaves to the declaring types as many arguments as these are marked with. -/
theorem treeWith_nested {declaring : TypeRef} (h : IsDefinition declaring) (hsize : declaring.markerSum < UInt64.size)
    {ts : List NameTree} (hts : declaring.markerSum ≤ ts.length) (name : String) :
    treeWith (some ts) (.named none name (some declaring) []) =
      .nested (treeWith (some (ts.take declaring.markerSum)) declaring) (stripArity name)
        (ts.drop declaring.markerSum) := by
  rw [treeWith, Option.getD_some, toNat_totalArity_of_markers hsize]
  by_cases hpos : 0 < declaring.markerSum
  · rw [if_pos ⟨hpos, hts⟩]
  · have hzero : declaring.markerSum = 0 := by omega
    rw [if_neg fun hbound => hpos hbound.1, hzero, List.take_zero, List.drop_zero, h.treeWith_none]

/-! ## Reading the tree of a name -/

theorem dotted_of_isNamespace {ns : String} (h : IsNamespace ns) : Dotted ns := by
  obtain ⟨words, hne, hwords, rfl⟩ := h
  exact Text.dots_between hne hwords

theorem IsLevelName.stripArity {name : String} (h : IsLevelName name) : IsIdentifier (stripArity name) := by
  obtain ⟨base, arity, hbase, rfl⟩ := h
  rwa [stripArity_marked hbase.not_mem]

theorem readable_treeWith {d : TypeRef} (h : IsDefinition d) {ts : List NameTree} (hts : ∀ t ∈ ts, t.Readable) :
    (treeWith (some ts) d).Readable := by
  induction h generalizing ts with
  | @topLevel ns name hns hname =>
    have hlevel : (NameTree.topLevel ns (TypeRef.stripArity name) ts).Readable :=
      .topLevel (fun words hwords => dotted_of_isNamespace (hns words hwords)) hname.stripArity hts
    simp only [treeWith, Option.getD_some]
    split
    · next only =>
      split_ifs
      · exact .nullable (hts only List.mem_cons_self)
      · exact hlevel
    · exact hlevel
  | @nested declaring name hdeclaring hname ih =>
    rw [treeWith, Option.getD_some]
    split_ifs
    · refine .nested (ih fun t ht => hts t ?_) hname.stripArity fun t ht => hts t ?_
      · exact List.mem_of_mem_take ht
      · exact List.mem_of_mem_drop ht
    · rw [hdeclaring.treeWith_none]
      exact .nested (ih fun t ht => absurd ht List.not_mem_nil) hname.stripArity hts

/-- **The name of a well-formed reference can be read.** -/
theorem readable_tree {r : TypeRef} (h : r.WellFormed) : r.tree.Readable := by
  induction r using inductionOn with
  | named ns name declaring own ih =>
    have hformed : Formed (.named ns name declaring own) := h _ (mem_parts _)
    unfold tree
    rw [treeWith_none]
    apply readable_treeWith hformed.1
    intro t ht
    rw [treesOf_eq] at ht
    obtain ⟨r, hr, rfl⟩ := List.mem_map.1 ht
    exact ih r hr fun s hs => h s (List.mem_cons_of_mem _ (mem_partsOf.2 ⟨r, hr, hs⟩))
  | parameter name position ofMethod =>
    have hname : IsIdentifier name := h _ (mem_parts _)
    exact .topLevel nofun hname nofun
  | array element rank ih => exact .array _ (ih fun s hs => h s (List.mem_cons_of_mem _ hs))
  | byRef element ih => exact (h (.byRef element) (mem_parts _)).elim
  | pointer element ih => exact .pointer (ih fun s hs => h s (List.mem_cons_of_mem _ hs))

end TypeRef

end ApiSurface
