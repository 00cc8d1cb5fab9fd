/-
Nested types, level by level.

A name shows each level with the arguments that fall to it. `shares` deals them out as a name is put together, from the
inside out; `allotted` cuts the arguments of a type by what the names of its levels count for, from the outside in.

`canonicalName_shares`: a canonical name is a namespace and the levels with their shares.
`shares_allotted`: the shares are what the names allot, as soon as the arguments are as many as the names count for.
-/
import ApiSurface.Proofs.TypeRef.Counting
import Mathlib.Algebra.Ring.Nat

namespace ApiSurface.TypeRef

/-! ## Shares -/

/-- a named type whose declaring types are named types too -/
inductive IsChain : TypeRef → Prop
  | topLevel (ns : Option String) (name : String) (own : List TypeRef) : IsChain (.named ns name none own)
  | nested (ns : Option String) (name : String) {declaring : TypeRef} (own : List TypeRef) :
    IsChain declaring → IsChain (.named ns name (some declaring) own)

/-- the levels, outermost first, each with the arguments that its name shows; the arguments given, if any, stand for those
of the reference -/
def shares (given : Option (List TypeRef)) : TypeRef → List (String × List TypeRef)
  | .named _ name none own => [(name, given.getD own)]
  | .named _ name (some declaring) own =>
    let arguments := given.getD own
    let bound := declaring.totalArity.toNat
    if 0 < bound ∧ bound ≤ arguments.length then
      shares (some (arguments.take bound)) declaring ++ [(name, arguments.drop bound)]
    else shares none declaring ++ [(name, arguments)]
  | _ => []

/-- the text of a level -/
def levelText (share : String × List TypeRef) : String := stripArity share.1 ++ angled (share.2.map canonicalName)

/-- the outermost level is a nullable type: its share is the one argument that `System.Nullable` takes -/
def ShowsNullable (given : Option (List TypeRef)) (r : TypeRef) : Prop :=
  r.outerNamespace = some nullableNamespace ∧ ∃ a, (shares given r).head? = some (nullableName, [a])

theorem namesOf_eq (rs : List TypeRef) : namesOf rs = rs.map canonicalName := by
  induction rs with
  | nil => rfl
  | cons r rest ih =>
    rw [namesOf, ih, List.map_cons]
    rfl

theorem names_given (given : Option (List TypeRef)) (own : List TypeRef) :
    (given.map fun rs => rs.map canonicalName).getD (namesOf own) = (given.getD own).map canonicalName := by
  cases given with
  | none => exact namesOf_eq own
  | some rs => rfl

theorem IsChain.shares_ne_nil {r : TypeRef} (h : r.IsChain) (given : Option (List TypeRef)) : shares given r ≠ [] := by
  cases h with
  | topLevel ns name own => exact List.cons_ne_nil _ _
  | nested ns name own _ =>
    rw [shares]
    split <;> exact List.append_ne_nil_of_right_ne_nil _ (List.cons_ne_nil _ _)

/-- the outermost level is that of the declaring type -/
theorem IsChain.head?_shares_append {r : TypeRef} (h : r.IsChain) (given : Option (List TypeRef))
    (share : String × List TypeRef) : (shares given r ++ [share]).head? = (shares given r).head? := by
  obtain ⟨first, rest, hfirst⟩ := List.exists_cons_of_ne_nil (h.shares_ne_nil given)
  rw [hfirst]
  rfl

/-- one more level -/
theorem intercalate_levels {levels : List String} (h : levels ≠ []) (level : String) :
    String.intercalate "+" (levels ++ [level]) = String.intercalate "+" levels ++ "+" ++ level := by
  rw [String.intercalate_append_of_ne_nil h (List.cons_ne_nil _ _), String.intercalate_singleton]

/-- **A name is a namespace and the levels**, whatever arguments are given. -/
theorem nameWith_shares {r : TypeRef} (h : r.IsChain) {given : Option (List TypeRef)} (hplain : ¬ShowsNullable given r) :
    nameWith (given.map fun rs => rs.map canonicalName) r =
      qualifier r.outerNamespace ++ String.intercalate "+" ((shares given r).map levelText) := by
  induction h generalizing given with
  | topLevel ns name own =>
    have hlevel : qualifier ns ++ stripArity name ++ angled ((given.getD own).map canonicalName) =
        qualifier ns ++ String.intercalate "+" ((shares given (.named ns name none own)).map levelText) := by
      rw [shares, List.map_singleton, String.intercalate_singleton, levelText, String.append_assoc]
    rw [nameWith, names_given, outerNamespace, ← hlevel]
    split
    · next only honly =>
      obtain ⟨a, hshare, -⟩ := List.map_eq_singleton_iff.1 honly
      refine if_neg fun hnullable => hplain ⟨hnullable.1, a, ?_⟩
      rw [shares, hshare, hnullable.2, List.head?_cons]
    · rfl
  | @nested ns name declaring own hdeclaring ih =>
    have hlevels : ∀ (inner : Option (List TypeRef)) (share : String × List TypeRef),
        shares given (.named ns name (some declaring) own) = shares inner declaring ++ [share] →
        nameWith (inner.map fun rs => rs.map canonicalName) declaring ++ "+" ++ levelText share =
          qualifier declaring.outerNamespace ++
            String.intercalate "+" ((shares given (.named ns name (some declaring) own)).map levelText) := by
      intro inner share hshares
      have hinner : ¬ShowsNullable inner declaring := by
        rintro ⟨hns, a, ha⟩
        refine hplain ⟨hns, a, ?_⟩
        rw [hshares, hdeclaring.head?_shares_append, ha]
      have hne : (shares inner declaring).map levelText ≠ [] :=
        mt List.map_eq_nil_iff.1 (hdeclaring.shares_ne_nil inner)
      rw [hshares, List.map_append, List.map_singleton, intercalate_levels hne, ih hinner]
      simp only [String.append_assoc]
    rw [nameWith, names_given, outerNamespace, List.length_map, ← List.map_take, ← List.map_drop]
    split
    · next hbound =>
      rw [← hlevels (some ((given.getD own).take declaring.totalArity.toNat))
        (name, (given.getD own).drop declaring.totalArity.toNat) (by rw [shares]; exact if_pos hbound)]
      simp only [levelText, String.append_assoc, Option.map_some]
    · next hbound =>
      rw [← hlevels none (name, given.getD own) (by rw [shares]; exact if_neg hbound)]
      simp only [levelText, String.append_assoc, Option.map_none]

/-- **A canonical name is a namespace and the levels with their shares.** -/
theorem canonicalName_shares {r : TypeRef} (h : r.IsChain) (hplain : ¬ShowsNullable none r) :
    r.canonicalName = qualifier r.outerNamespace ++ String.intercalate "+" ((shares none r).map levelText) :=
  nameWith_shares h hplain

/-! ## Arguments by level -/

/-- the names of the levels, outermost first -/
def levelNames : TypeRef → List String
  | .named _ name none _ => [name]
  | .named _ name (some declaring) _ => declaring.levelNames ++ [name]
  | _ => []

/-- each name with as many arguments as it counts for, after those of the names before it -/
def allotted (names : List String) (arguments : List TypeRef) : List (String × List TypeRef) :=
  names.zipIdx.map fun (name, index) =>
    (name, (arguments.drop ((names.take index).map counted).sum).take (counted name))

theorem countedSum_eq_sum (r : TypeRef) : r.countedSum = (r.levelNames.map counted).sum := by
  match r with
  | .named _ name none _ => simp [countedSum, levelSum, levelNames]
  | .named _ name (some declaring) _ => simp [countedSum_nested, levelNames, countedSum_eq_sum declaring]
  | .parameter _ _ _ | .array _ _ | .byRef _ | .pointer _ => rfl

/-- the names up to an entry count for no more than all of them -/
theorem sum_take_le {names : List String} {name : String} {index : Nat} (h : (name, index) ∈ names.zipIdx) :
    ((names.take index).map counted).sum + counted name ≤ (names.map counted).sum := by
  have hget : names[index]? = some name := List.mem_zipIdx_iff_getElem?.1 h
  obtain ⟨hlt, rfl⟩ := List.getElem?_eq_some_iff.1 hget
  have hsplit : (names.map counted).sum =
      ((names.take index).map counted).sum + (counted names[index] + ((names.drop (index + 1)).map counted).sum) := by
    rw [← List.sum_cons, ← List.map_cons, ← List.drop_eq_getElem_cons hlt, ← List.sum_append, ← List.map_append,
      List.take_append_drop]
  omega

/-- arguments after those that the names count for are left over -/
theorem allotted_take (names : List String) (arguments : List TypeRef) :
    allotted names (arguments.take (names.map counted).sum) = allotted names arguments := by
  refine List.map_congr_left fun ⟨name, index⟩ h => ?_
  have hle := sum_take_le h
  dsimp only
  rw [List.drop_take, List.take_take, Nat.min_eq_left (by omega)]

theorem allotted_concat (names : List String) (name : String) (arguments : List TypeRef) :
    allotted (names ++ [name]) arguments =
      allotted names arguments ++ [(name, (arguments.drop (names.map counted).sum).take (counted name))] := by
  unfold allotted
  rw [List.zipIdx_append, List.map_append]
  refine congrArg₂ _ (List.map_congr_left fun ⟨other, index⟩ h => ?_) ?_
  · have hlt : index < names.length := (List.getElem?_eq_some_iff.1 (List.mem_zipIdx_iff_getElem?.1 h)).1
    dsimp only
    rw [List.take_append_of_le_length (Nat.le_of_lt hlt)]
  · simp

/-- each level gets as many arguments as its name counts for -/
theorem length_of_mem_allotted {names : List String} {arguments : List TypeRef}
    (h : (names.map counted).sum ≤ arguments.length) :
    ∀ share ∈ allotted names arguments, share.2.length = counted share.1 := by
  intro share hshare
  obtain ⟨⟨name, index⟩, hmem, rfl⟩ := List.mem_map.1 hshare
  have hle := sum_take_le hmem
  dsimp only
  rw [List.length_take, List.length_drop]
  omega

/-! ## Nests -/

/-- types nested in each other, the outermost of which is not `System.Nullable`; a type that declares another has no
arguments if neither it nor a type around it takes any -/
inductive IsNest : TypeRef → Prop
  | topLevel {ns : Option String} {name : String} (own : List TypeRef) :
    ¬(ns = some nullableNamespace ∧ name = nullableName) → IsNest (.named ns name none own)
  | nested (ns : Option String) (name : String) {declaring : TypeRef} (own : List TypeRef) :
    IsNest declaring → (declaring.countedSum = 0 → declaring.arguments = []) → IsNest (.named ns name (some declaring) own)

theorem IsNest.isChain {r : TypeRef} (h : r.IsNest) : r.IsChain := by
  induction h with
  | topLevel own _ => exact .topLevel _ _ own
  | nested ns name own _ _ ih => exact .nested ns name own ih

theorem IsNest.not_showsNullable {r : TypeRef} (h : r.IsNest) (given : Option (List TypeRef)) :
    ¬ShowsNullable given r := by
  induction h generalizing given with
  | topLevel own hplain =>
    rintro ⟨hns, a, ha⟩
    exact hplain ⟨hns, (Prod.mk.inj (Option.some.inj ha)).1⟩
  | @nested ns name declaring own hdeclaring _ ih =>
    rintro ⟨hns, a, ha⟩
    rw [shares] at ha
    split at ha
    · rw [hdeclaring.isChain.head?_shares_append] at ha
      exact ih _ ⟨hns, a, ha⟩
    · rw [hdeclaring.isChain.head?_shares_append] at ha
      exact ih _ ⟨hns, a, ha⟩

/-- **The shares are what the names allot**, if the arguments are as many as the names count for. -/
theorem shares_allotted {r : TypeRef} (h : r.IsNest) {given : Option (List TypeRef)}
    (hlength : (given.getD r.arguments).length = r.countedSum) (hsize : r.countedSum < UInt64.size) :
    shares given r = allotted r.levelNames (given.getD r.arguments) := by
  induction h generalizing given with
  | @topLevel ns name own _ =>
    change (given.getD own).length = counted name at hlength
    rw [shares, levelNames, arguments]
    simp [allotted, ← hlength]
  | @nested ns name declaring own hdeclaring hbare ih =>
    change (given.getD own).length = declaring.countedSum + counted name at hlength
    change declaring.countedSum + counted name < UInt64.size at hsize
    have harity : declaring.totalArity.toNat = declaring.countedSum := toNat_totalArity_of_counted (by omega)
    have hinner : ∀ inner : Option (List TypeRef),
        inner.getD declaring.arguments = (given.getD own).take declaring.countedSum →
        shares inner declaring ++ [(name, (given.getD own).drop declaring.countedSum)] =
          allotted (declaring.levelNames ++ [name]) (given.getD own) := by
      intro inner heq
      have hlast : ((given.getD own).drop declaring.countedSum).take (counted name) =
          (given.getD own).drop declaring.countedSum :=
        List.take_of_length_le (by rw [List.length_drop]; omega)
      rw [ih (by rw [heq, List.length_take]; omega) (by omega), heq, allotted_concat, ← countedSum_eq_sum, hlast,
        countedSum_eq_sum, allotted_take]
    rw [shares, levelNames, arguments, harity]
    by_cases hzero : declaring.countedSum = 0
    · rw [if_neg (by omega), ← hinner none (by rw [hzero, List.take_zero]; exact hbare hzero), hzero, List.drop_zero]
    · rw [if_pos ⟨by omega, by omega⟩, ← hinner (some ((given.getD own).take declaring.countedSum)) rfl]

/-- **Every argument stands at the level that takes it.** -/
theorem canonicalName_allotted {r : TypeRef} (h : r.IsNest) (hlength : r.arguments.length = r.countedSum)
    (hsize : r.countedSum < UInt64.size) : r.canonicalName =
      qualifier r.outerNamespace ++ String.intercalate "+" ((allotted r.levelNames r.arguments).map levelText) := by
  have hshares : shares none r = allotted r.levelNames r.arguments := shares_allotted h hlength hsize
  rw [canonicalName_shares h.isChain (h.not_showsNullable none), hshares]

end ApiSurface.TypeRef
