/-
Records are read from any object that has one value, or none, under each of their keys, wherever it stands among members
under other keys.

`obstacle_eq_ok`: nothing is in the way of reading such an object, if what stands under other keys can be passed over.
`field_eq_ok`, `field_eq_default`: the field of a key has the value under it, or its default.
-/
import ApiSurface.Json.Record

namespace ApiSurface.Json.Fields

open Draft

/-- the values under a key, in their order -/
def valuesUnder (key : String) (members : Entries) : List Draft :=
  members.filterMap fun m =>
    match m.1 with
    | .ok k => if k = key then some m.2 else none
    | .error _ => none

theorem valuesUnder_cons (key k : String) (value : Draft) (rest : Entries) :
    valuesUnder key ((.ok k, value) :: rest) =
      if k = key then value :: valuesUnder key rest else valuesUnder key rest := by
  unfold valuesUnder
  rw [List.filterMap_cons]
  by_cases hk : k = key <;> simp [hk]

/-- the first value under a key is the first of those under it -/
theorem first?_eq_head? (key : String) (members : Entries) :
    (first? key members).map Prod.fst = (valuesUnder key members).head? := by
  unfold first?
  -- the value is found wherever the places start
  generalize 0 = start
  induction members generalizing start with
  | nil => rfl
  | cons m rest ih =>
    obtain ⟨k | k, value⟩ := m
    · exact ih (start + 1)
    · rw [List.zipIdx_cons, List.findSome?_cons, valuesUnder_cons]
      by_cases hk : k = key
      · simp [hk]
      · simp only [hk, if_false]
        exact ih (start + 1)

variable {α : Type} {key : String} {decoder : Decoder α} {members : Entries}

/-- a field has what is read from the value under its key -/
theorem field_eq_ok {source : Source} {alternative : Option α} {value : Draft} {more : List Draft} {x : α}
    (h : valuesUnder key members = value :: more) (hread : decoder source value = .ok x) :
    (field key decoder alternative).ofMembers source members = .ok x := by
  have hfirst := first?_eq_head? key members
  rw [h, List.head?_cons] at hfirst
  obtain ⟨⟨value', place⟩, hplace, rfl⟩ := Option.map_eq_some_iff.1 hfirst
  unfold field
  dsimp only
  rw [hplace]
  dsimp only
  rw [hread]
  rfl

/-- a field has its default when nothing stands under its key -/
theorem field_eq_default {source : Source} {x : α} (h : valuesUnder key members = []) :
    (field key decoder (some x)).ofMembers source members = .ok x := by
  have hfirst := first?_eq_head? key members
  rw [h, List.head?_nil, Option.map_eq_none_iff] at hfirst
  unfold field
  dsimp only
  rw [hfirst]

/-- **Nothing is in the way** when all keys can be read, no known one comes twice and what stands under the others can be
passed over. -/
theorem obstacle_eq_ok {known : List String} {pass : Draft → Option TextFault} (seen : List String) (place : Nat)
    (hkeys : ∀ m ∈ members, ∃ key, m.1 = .ok key ∧ (key ∈ known ∨ pass m.2 = none))
    (hknown : ∀ key ∈ known, (valuesUnder key members).length ≤ 1) (hseen : ∀ key ∈ seen, valuesUnder key members = []) :
    obstacle known pass none seen place members = .ok () := by
  induction members generalizing seen place with
  | nil => rfl
  | cons m rest ih =>
    obtain ⟨⟨k, hk, hpass⟩, hkeys'⟩ := List.forall_mem_cons.1 hkeys
    obtain ⟨_, value⟩ := m
    obtain rfl := hk
    have hfewer : ∀ key, (valuesUnder key rest).Sublist (valuesUnder key ((.ok k, value) :: rest)) := fun key =>
      (List.sublist_cons_self _ _).filterMap _
    have hknown' : ∀ key ∈ known, (valuesUnder key rest).length ≤ 1 := fun key hkey =>
      Nat.le_trans (hfewer key).length_le (hknown key hkey)
    have hseen' : ∀ key ∈ seen, valuesUnder key rest = [] := fun key hkey =>
      List.sublist_nil.1 (hseen key hkey ▸ hfewer key)
    rw [obstacle]
    split
    · next hk =>
      have hnew : seen.contains k = false := by
        rw [Bool.eq_false_iff]
        intro hold
        have hnone := hseen k (List.contains_iff_mem.1 hold)
        rw [valuesUnder_cons, if_pos rfl] at hnone
        cases hnone
      have honce : valuesUnder k rest = [] := by
        have hk := hknown k (List.contains_iff_mem.1 hk)
        rw [valuesUnder_cons, if_pos rfl, List.length_cons] at hk
        exact List.eq_nil_of_length_eq_zero (by omega)
      rw [hnew]
      exact ih (k :: seen) (place + 1) hkeys' hknown' (List.forall_mem_cons.2 ⟨honce, hseen'⟩)
    · next hunknown =>
      have hvalue : pass value = none := hpass.resolve_left fun hk => hunknown (List.contains_iff_mem.2 hk)
      rw [hvalue]
      exact ih seen (place + 1) hkeys' hknown' hseen'

end ApiSurface.Json.Fields
