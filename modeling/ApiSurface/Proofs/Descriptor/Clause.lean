/-
Where-clauses can be read back.

`Bounds.parts_inj`: the parts of a clause tell the bounds, as long as no base is called like a keyword.
`clauses_inj`: so do the clauses at the end of a declaration tell the bounded parameters, in order.
-/
import ApiSurface.Descriptor.Generic
import ApiSurface.Proofs.Descriptor.Vocabulary

namespace ApiSurface

open Text

namespace Bounds

/-- every base has the name of a type -/
def Named (b : Bounds) : Prop := ∀ s ∈ b.bases, TypeName s

instance (b : Bounds) : Decidable b.Named := inferInstanceAs (Decidable (∀ s ∈ b.bases, TypeName s))

/-! ## The parts of a clause -/

theorem bases_eq_filter {b : Bounds} (h : b.Named) : b.parts.filter (fun p => decide (p ∉ keywords)) = b.bases := by
  have hbases : b.bases.filter (fun p => decide (p ∉ keywords)) = b.bases := by
    rw [List.filter_eq_self]
    intro s hs
    exact decide_eq_true (h s hs).free
  have hclass : "class" ∈ keywords := by decide
  have hstruct : "struct" ∈ keywords := by decide
  have hnew : "new()" ∈ keywords := by decide
  unfold parts
  rw [List.filter_append, List.filter_append, List.filter_append, hbases]
  cases b.reference <;> cases b.value <;> cases b.new <;> simp [hclass, hstruct, hnew]

theorem mem_parts {b : Bounds} (h : b.Named) {w : String} (hw : w ∈ keywords) :
    w ∈ b.parts ↔ (b.reference = true ∧ w = "class") ∨ (b.value = true ∧ w = "struct") ∨
      (b.new = true ∧ w = "new()") := by
  have hbases : w ∉ b.bases := fun hb => (h w hb).free hw
  unfold parts
  cases b.reference <;> cases b.value <;> cases b.new <;> simp [hbases]

theorem class_mem_parts {b : Bounds} (h : b.Named) : "class" ∈ b.parts ↔ b.reference = true := by
  rw [mem_parts h (by decide)]
  simp

theorem struct_mem_parts {b : Bounds} (h : b.Named) : "struct" ∈ b.parts ↔ b.value = true := by
  rw [mem_parts h (by decide)]
  simp

theorem new_mem_parts {b : Bounds} (h : b.Named) : "new()" ∈ b.parts ↔ b.new = true := by
  rw [mem_parts h (by decide)]
  simp

/-- **The parts tell the bounds.** -/
theorem parts_inj {b b' : Bounds} (h : b.Named) (h' : b'.Named) (hparts : b.parts = b'.parts) : b = b' := by
  have hbases : b.bases = b'.bases := by rw [← bases_eq_filter h, ← bases_eq_filter h', hparts]
  have hreference : b.reference = b'.reference :=
    Bool.eq_iff_iff.2 (by rw [← class_mem_parts h, ← class_mem_parts h', hparts])
  have hvalue : b.value = b'.value :=
    Bool.eq_iff_iff.2 (by rw [← struct_mem_parts h, ← struct_mem_parts h', hparts])
  have hnew : b.new = b'.new := Bool.eq_iff_iff.2 (by rw [← new_mem_parts h, ← new_mem_parts h', hparts])
  cases b
  cases b'
  simp only at hbases hreference hvalue hnew
  rw [hbases, hreference, hvalue, hnew]

theorem closed_parts {b : Bounds} (h : b.Named) : ∀ p ∈ b.parts.map String.toList, Closed p := by
  intro p hp
  obtain ⟨s, hs, rfl⟩ := List.mem_map.1 hp
  by_cases hk : s ∈ keywords
  · exact closed_of_mem_keywords hk
  · have hmem : s ∈ b.parts.filter fun p => decide (p ∉ keywords) := List.mem_filter.2 ⟨hs, decide_eq_true hk⟩
    rw [bases_eq_filter h] at hmem
    exact (h s hmem).closed

theorem parts_ne_nil_iff (b : Bounds) : b.parts ≠ [] ↔ b.any = true := by
  unfold parts any
  cases b.reference <;> cases b.value <;> cases b.new <;> simp

/-! ## Clauses -/

/-- the clause of bounds that there are -/
theorem toList_clause {b : Bounds} (h : b.any = true) (label : String) :
    (b.clause label).toList = "where ".toList ++ (label.toList ++ (" : ".toList ++ joined (b.parts.map String.toList))) := by
  have hne : ¬b.parts.isEmpty = true := by
    rw [List.isEmpty_iff]
    exact (parts_ne_nil_iff b).2 h
  unfold clause
  rw [if_neg hne]
  simp only [String.toList_append, String.toList_intercalate, List.append_assoc]
  rfl

end Bounds

/-- the clauses of labelled bounds, with a blank before each -/
def clausesText (clauses : List (String × Bounds)) : List Char :=
  clauses.flatMap fun c => ' ' :: (c.2.clause c.1).toList

theorem endsBlank_clausesText (clauses : List (String × Bounds)) : EndsBlank (clausesText clauses) := by
  cases clauses with
  | nil => trivial
  | cons c rest => rfl

/-- a label without blanks, and bounds with bases called like types -/
def ReadableClause (c : String × Bounds) : Prop := c.2.any = true ∧ c.2.Named ∧ ' ' ∉ c.1.toList

theorem clausesText_cons (label : String) {b : Bounds} (h : b.any = true) (rest : List (String × Bounds)) :
    clausesText ((label, b) :: rest) =
      " where ".toList ++ (label.toList ++ ' ' :: (": ".toList ++ (joined (b.parts.map String.toList) ++
        clausesText rest))) := by
  unfold clausesText
  rw [List.flatMap_cons, Bounds.toList_clause h]
  simp

/-- **Clauses tell the bounded parameters.** -/
theorem clauses_inj {cs ds : List (String × Bounds)} (hcs : ∀ c ∈ cs, ReadableClause c) (hds : ∀ d ∈ ds, ReadableClause d)
    (h : clausesText cs = clausesText ds) : cs = ds := by
  induction cs generalizing ds with
  | nil =>
    cases ds with
    | nil => rfl
    | cons d ds => cases h
  | cons c cs ih =>
    cases ds with
    | nil => cases h
    | cons d ds =>
      obtain ⟨label, b⟩ := c
      obtain ⟨label', b'⟩ := d
      rw [List.forall_mem_cons] at hcs hds
      obtain ⟨⟨hany, hnamed, hlabel⟩, hcs⟩ := hcs
      obtain ⟨⟨hany', hnamed', hlabel'⟩, hds⟩ := hds
      rw [clausesText_cons label hany, clausesText_cons label' hany'] at h
      obtain ⟨hlabels, hrest⟩ := cut_at hlabel hlabel' (List.append_cancel_left h)
      have hne : b.parts.map String.toList ≠ [] := by simpa using (Bounds.parts_ne_nil_iff b).2 hany
      have hne' : b'.parts.map String.toList ≠ [] := by simpa using (Bounds.parts_ne_nil_iff b').2 hany'
      obtain ⟨hparts, htail⟩ := joined_cut hne hne' (Bounds.closed_parts hnamed) (Bounds.closed_parts hnamed')
        (endsBlank_clausesText cs) (endsBlank_clausesText ds) (List.append_cancel_left hrest)
      have hbounds : b = b' :=
        Bounds.parts_inj hnamed hnamed' (map_toList_inj hparts)
      have hlabels : label = label' := String.toList_inj.1 hlabels
      rw [hlabels, hbounds, ih hcs hds htail]

end ApiSurface
