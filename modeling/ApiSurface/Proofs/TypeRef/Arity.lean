/-
Arity markers: what a name is marked with, said without taking the name apart backwards, and what the markers of all levels of
a type come to in words.

`stripArity_marked`, `markerOf_marked`: the base and the number of a marked name.
`toNat_ownArity`: a word holds the number of a marker, or nothing if no word can hold the number.
`toNat_totalArity`: the arity of a type is the sum over its levels, as far as a word can hold it.
-/
import ApiSurface.TypeRef.Basic

namespace ApiSurface.TypeRef

/-! ## Markers -/

/-- the characters after the last mark -/
def afterLast (mark : Char) : List Char → Option (List Char)
  | [] => none
  | c :: rest => (afterLast mark rest).or (if c = mark then some rest else none)

/-- the number after the last backquote of a name, where decimal digits stand and nothing else -/
def marker? (name : String) : Option Nat :=
  match afterLast '\x60' name.toList with
  | some (d :: digits) => if (d :: digits).all Char.isDigit then some (Nat.ofDigitChars 10 (d :: digits) 0) else none
  | _ => none

/-- the number that a name is marked with, however large; zero without a marker -/
def markerOf (name : String) : Nat := (marker? name).getD 0

theorem afterLast_append {mark : Char} (before : List Char) {after : List Char} (h : mark ∉ after) :
    afterLast mark (before ++ mark :: after) = some after := by
  have hnone : afterLast mark after = none := by
    induction after with
    | nil => rfl
    | cons c rest ih =>
      obtain ⟨hc, hrest⟩ := not_or.1 (mt List.mem_cons.2 h)
      rw [afterLast, ih hrest, if_neg (Ne.symm hc), Option.none_or]
  induction before with
  | nil => rw [List.nil_append, afterLast, hnone, if_pos rfl, Option.none_or]
  | cons c rest ih => rw [List.cons_append, afterLast, ih, Option.some_or]

theorem exists_of_afterLast {mark : Char} {text after : List Char} (h : afterLast mark text = some after) :
    ∃ before, text = before ++ mark :: after := by
  induction text with
  | nil => cases h
  | cons c rest ih =>
    rw [afterLast, Option.or_eq_some_iff] at h
    rcases h with h | ⟨-, h⟩
    · obtain ⟨before, rfl⟩ := ih h
      exact ⟨c :: before, rfl⟩
    · obtain ⟨hmark, hrest⟩ := Option.ite_none_right_eq_some.1 h
      rw [hmark, Option.some.inj hrest]
      exact ⟨[], rfl⟩

/-- digits after a backquote are a marker -/
theorem splitArity_of_toList {name : String} {base digits : List Char} (hname : name.toList = base ++ '\x60' :: digits)
    (hne : digits ≠ []) (hdigits : ∀ c ∈ digits, c.isDigit = true) : splitArity name = (String.ofList base, digits) := by
  have hbackward : name.toList.reverse = digits.reverse ++ '\x60' :: base.reverse := by simp [hname]
  have hreverse : ∀ c ∈ digits.reverse, c.isDigit = true := fun c hc => hdigits c (List.mem_reverse.1 hc)
  have htake : name.toList.reverse.takeWhile Char.isDigit = digits.reverse := by
    rw [hbackward, List.takeWhile_append_of_pos hreverse]
    simp
  have hdrop : name.toList.reverse.dropWhile Char.isDigit = '\x60' :: base.reverse := by
    rw [hbackward, List.dropWhile_append_of_pos hreverse]
    simp
  obtain ⟨d, ds, hd⟩ := List.exists_cons_of_ne_nil (mt List.reverse_eq_nil_iff.1 hne)
  unfold splitArity
  dsimp only
  rw [htake, hdrop, hd]
  change (String.ofList base.reverse.reverse, (d :: ds).reverse) = _
  rw [← hd, List.reverse_reverse, List.reverse_reverse]

/-- a marker is nothing but digits after a backquote -/
theorem exists_of_splitArity {name : String} (h : (splitArity name).2 ≠ []) :
    ∃ base, name.toList = base ++ '\x60' :: (splitArity name).2 ∧ ∀ c ∈ (splitArity name).2, c.isDigit = true := by
  have htext := List.takeWhile_append_dropWhile (p := Char.isDigit) (l := name.toList.reverse)
  have hall := List.all_takeWhile (p := Char.isDigit) (l := name.toList.reverse)
  unfold splitArity at h ⊢
  dsimp only at h ⊢
  generalize name.toList.reverse.takeWhile Char.isDigit = digits at htext hall h ⊢
  generalize name.toList.reverse.dropWhile Char.isDigit = before at htext h ⊢
  split at h
  · next d ds rest =>
    refine ⟨rest.reverse, ?_, fun c hc => List.all_eq_true.1 hall c (List.mem_reverse.1 hc)⟩
    have hreverse := congrArg List.reverse htext
    simpa using hreverse.symm
  · exact absurd rfl h

theorem not_isDigit_backquote : ('\x60' : Char).isDigit = false := by decide

/-- the marker found backwards is the one after the last backquote -/
theorem marker?_eq (name : String) : marker? name =
    if (splitArity name).2 = [] then none else some (Nat.ofDigitChars 10 (splitArity name).2 0) := by
  have hdigits : ∀ base digits, name.toList = base ++ '\x60' :: digits → (∀ c ∈ digits, c.isDigit = true) →
      afterLast '\x60' name.toList = some digits := by
    intro base digits hname hdigits
    rw [hname]
    refine afterLast_append base fun hmem => ?_
    have := hdigits _ hmem
    rw [not_isDigit_backquote] at this
    cases this
  split
  · next hnone =>
    unfold marker?
    split
    · next d digits hafter =>
      refine if_neg fun hall => ?_
      obtain ⟨base, hname⟩ := exists_of_afterLast hafter
      have hsplit := splitArity_of_toList hname (List.cons_ne_nil d digits) (List.all_eq_true.1 hall)
      rw [hsplit] at hnone
      cases hnone
    · rfl
  · next hne =>
    obtain ⟨base, hname, hall⟩ := exists_of_splitArity hne
    obtain ⟨d, digits, hcons⟩ := List.exists_cons_of_ne_nil hne
    unfold marker?
    rw [hdigits base _ hname hall, hcons]
    rw [hcons] at hall
    exact if_pos (List.all_eq_true.2 hall)

/-- the number of a marker is that of the digits which are taken off the name -/
theorem markerOf_eq (name : String) : markerOf name = Nat.ofDigitChars 10 (splitArity name).2 0 := by
  rw [markerOf, marker?_eq]
  split
  · next hnone =>
    rw [hnone]
    rfl
  · rfl

/-! ## Marked names -/

/-- the name of a level that takes some arguments: marked with their number, unless there are none -/
def marked (base : String) (arity : Nat) : String := if arity = 0 then base else base ++ "\x60" ++ arity.repr

theorem isDigit_repr {n : Nat} {c : Char} (h : c ∈ n.repr.toList) : c.isDigit = true := by
  rw [Nat.toList_repr] at h
  exact Nat.isDigit_of_mem_toDigits (by decide) (by decide) h

/-- a name without a backquote has no marker -/
theorem splitArity_of_not_mem {name : String} (h : '\x60' ∉ name.toList) : splitArity name = (name, []) := by
  unfold splitArity
  dsimp only
  split
  · next hrest =>
    have hmem : '\x60' ∈ name.toList.reverse.dropWhile Char.isDigit := by simp [hrest]
    exact absurd (List.mem_reverse.1 (List.dropWhile_subset _ hmem)) h
  · rfl

theorem splitArity_append (base : String) (n : Nat) :
    splitArity (base ++ "\x60" ++ n.repr) = (base, n.repr.toList) := by
  have hname : (base ++ "\x60" ++ n.repr).toList = base.toList ++ '\x60' :: n.repr.toList := by simp
  have hne : n.repr.toList ≠ [] := by
    rw [Nat.toList_repr]
    exact Nat.toDigits_ne_nil
  rw [splitArity_of_toList hname hne fun c => isDigit_repr, String.ofList_toList]

/-- **A marked name loses its marker.** -/
theorem stripArity_marked {base : String} (h : '\x60' ∉ base.toList) (arity : Nat) :
    stripArity (marked base arity) = base := by
  unfold stripArity marked
  split
  · rw [splitArity_of_not_mem h]
  · rw [splitArity_append]

theorem markerOf_marked {base : String} (h : '\x60' ∉ base.toList) (arity : Nat) :
    markerOf (marked base arity) = arity := by
  rw [markerOf_eq]
  unfold marked
  split
  · next hzero =>
    rw [splitArity_of_not_mem h, hzero]
    rfl
  · rw [splitArity_append, Nat.toList_repr]
    exact Nat.ofDigitChars_ten_toDigits

/-! ## Levels -/

/-- what a level counts for: the number of its marker, if a word can hold it -/
def counted (name : String) : Nat := if markerOf name < UInt64.size then markerOf name else 0

/-- **A word holds what a name counts for.** -/
theorem toNat_ownArity (name : String) : (ownArity name).toNat = counted name := by
  unfold ownArity counted
  rw [markerOf_eq]
  dsimp only
  split
  · next hsize => exact UInt64.toNat_ofNat_of_lt' hsize
  · rfl

/-- one more than a word can hold counts for nothing -/
example : counted "C\x6018446744073709551615" = 18446744073709551615 ∧ counted "C\x6018446744073709551616" = 0 := by decide

theorem counted_lt (name : String) : counted name < UInt64.size := toNat_ownArity name ▸ (ownArity name).toNat_lt_size

theorem counted_eq {name : String} (h : markerOf name < UInt64.size) : counted name = markerOf name := if_pos h

/-! ## Sums over the levels of a type -/

/-- what the names of all levels of a type come to -/
def levelSum (value : String → Nat) : TypeRef → Nat
  | .named _ name none _ => value name
  | .named _ name (some declaring) _ => declaring.levelSum value + value name
  | _ => 0

/-- the sum of the markers of all levels of a type, however large -/
def markerSum : TypeRef → Nat := levelSum markerOf

/-- what the levels of a type count for together -/
def countedSum : TypeRef → Nat := levelSum counted

section

variable (ns : Option String) (name : String) (declaring : TypeRef) (own : List TypeRef)

theorem markerSum_nested : markerSum (.named ns name (some declaring) own) = declaring.markerSum + markerOf name := rfl

theorem countedSum_nested : countedSum (.named ns name (some declaring) own) = declaring.countedSum + counted name := rfl

end

/-- every marker counts where a word can hold their sum -/
theorem countedSum_eq {r : TypeRef} (h : r.markerSum < UInt64.size) : r.countedSum = r.markerSum := by
  match r with
  | .named _ name none _ => exact counted_eq h
  | .named _ name (some declaring) _ =>
    rw [markerSum_nested] at h ⊢
    have hdeclaring : declaring.countedSum = declaring.markerSum := countedSum_eq (by omega)
    rw [countedSum_nested, hdeclaring, counted_eq (by omega)]
  | .parameter _ _ _ | .array _ _ | .byRef _ | .pointer _ => rfl

/-- **The arity of a type is what its levels count for**, but for what a word cannot hold. -/
theorem toNat_totalArity : ∀ r : TypeRef, r.totalArity.toNat = r.countedSum % UInt64.size
  | .named _ name none _ => (toNat_ownArity name).trans (Nat.mod_eq_of_lt (counted_lt name)).symm
  | .named _ name (some declaring) _ => by
    rw [totalArity, UInt64.toNat_add, toNat_totalArity declaring, toNat_ownArity, countedSum_nested]
    exact Nat.mod_add_mod ..
  | .parameter _ _ _ | .array _ _ | .byRef _ | .pointer _ => rfl

theorem toNat_totalArity_of_counted {r : TypeRef} (h : r.countedSum < UInt64.size) : r.totalArity.toNat = r.countedSum :=
  (toNat_totalArity r).trans (Nat.mod_eq_of_lt h)

theorem toNat_totalArity_of_markers {r : TypeRef} (h : r.markerSum < UInt64.size) : r.totalArity.toNat = r.markerSum :=
  countedSum_eq h ▸ toNat_totalArity_of_counted (countedSum_eq h ▸ h)

end ApiSurface.TypeRef
