/-
The definition keys of all named types that occur in a reference: its own, and those of its arguments, its element and the types
that declare it.

`mem_keys_substitute`: putting arguments in brings in no keys but theirs.
-/
import ApiSurface.Proofs.TypeRef.Substitution

namespace ApiSurface.TypeRef

mutual

def keys : TypeRef → List String
  | .named ns name none own => (named ns name none own).definitionKey?.toList ++ keysOf own
  | .named ns name (some declaring) own =>
    (named ns name (some declaring) own).definitionKey?.toList ++ keys declaring ++ keysOf own
  | .parameter _ _ _ => []
  | .array element _ => keys element
  | .byRef element => keys element
  | .pointer element => keys element

def keysOf : List TypeRef → List String
  | [] => []
  | r :: rest => keys r ++ keysOf rest

end

variable {r : TypeRef} {key : String}

theorem mem_keysOf {rs : List TypeRef} : key ∈ keysOf rs ↔ ∃ r ∈ rs, key ∈ r.keys := by
  induction rs with
  | nil => simp [keysOf]
  | cons r rest ih => simp [keysOf, ih]

theorem mem_keys_named {ns : Option String} {name : String} {declaring : Option TypeRef} {own : List TypeRef} :
    key ∈ (named ns name declaring own).keys ↔ (named ns name declaring own).definitionKey? = some key ∨
      (∃ d ∈ declaring, key ∈ d.keys) ∨ ∃ r ∈ own, key ∈ r.keys := by
  cases declaring with
  | none => simp [keys, mem_keysOf]
  | some d => simp [keys, mem_keysOf]

theorem mem_keys_of_definitionKey? (h : r.definitionKey? = some key) : key ∈ r.keys := by
  cases r with
  | named => exact mem_keys_named.2 (Or.inl h)
  | parameter => cases h
  | array => cases h
  | byRef => cases h
  | pointer => cases h

theorem keys_withoutByRef (r : TypeRef) : r.withoutByRef.keys = r.keys := by
  induction r using inductionOn with
  | byRef element ih =>
    rw [withoutByRef, keys]
    exact ih
  | named => rfl
  | parameter => rfl
  | array => rfl
  | pointer => rfl

theorem mem_keys_of_argument {a : TypeRef} (ha : a ∈ r.arguments) (hkey : key ∈ a.keys) : key ∈ r.keys := by
  cases r with
  | named => exact mem_keys_named.2 (Or.inr (Or.inr ⟨a, ha, hkey⟩))
  | parameter => cases ha
  | array => cases ha
  | byRef => cases ha
  | pointer => cases ha

theorem mem_keys_of_declaring {d : TypeRef} (hd : r.declaring? = some d) (hkey : key ∈ d.keys) : key ∈ r.keys := by
  cases r with
  | named => exact mem_keys_named.2 (Or.inr (Or.inl ⟨d, hd, hkey⟩))
  | parameter => cases hd
  | array => cases hd
  | byRef => cases hd
  | pointer => cases hd

/-- **Arguments put in.** -/
theorem mem_keys_substitute {arguments : List TypeRef} (h : key ∈ (r.substitute arguments).keys) :
    key ∈ r.keys ∨ ∃ a ∈ arguments, key ∈ a.keys := by
  induction r using inductionOn with
  | named ns name declaring own ih =>
    rw [substitute, substituteAll_eq_map, mem_keys_named] at h
    rcases h with hown | hdeclaring | ⟨r', hr', hkey⟩
    · refine Or.inl (mem_keys_named.2 (Or.inl ?_))
      rw [← hown]
      cases declaring <;> rfl
    · exact Or.inl (mem_keys_named.2 (Or.inr (Or.inl hdeclaring)))
    · obtain ⟨r, hr, rfl⟩ := List.mem_map.1 hr'
      exact (ih r hr hkey).imp_left fun hkey => mem_keys_named.2 (Or.inr (Or.inr ⟨r, hr, hkey⟩))
  | parameter name position ofMethod =>
    cases ofMethod with
    | true => exact Or.inl h
    | false =>
      rw [substitute] at h
      cases hargument : arguments[position.toNat]? with
      | none =>
        rw [hargument] at h
        exact Or.inl h
      | some a =>
        rw [hargument] at h
        exact Or.inr ⟨a, List.mem_of_getElem? hargument, h⟩
  | array element rank ih => exact ih h
  | byRef element ih => exact ih h
  | pointer element ih => exact ih h

end ApiSurface.TypeRef
