/-
What a valid listing is, said apart from the check that looks for the first breach.

`validate_eq_ok_iff`: the check passes exactly on valid listings.
-/
import ApiSurface.Listing.Validation

namespace ApiSurface.Listing

/-! ## Valid listings -/

/-- the rules for a type by itself -/
structure ValidType (t : TypeDescriptor) : Prop where
  named : t.name ≠ ""
  interface_open : t.kind = .interfaceType → t.isSealed = false
  static_class : t.isStatic = true → t.kind = .classType
  members_named : ∀ m ∈ t.members, m.name ≠ ""
  members_distinct : (t.members.map MemberDescriptor.id).Nodup

/-- the rules for a listing -/
structure Valid (l : Listing) : Prop where
  distinct : (l.types.map TypeDescriptor.name).Nodup
  types : ∀ t ∈ l.types, ValidType t

/-! ## The check -/

/-- the members pass when they are named and their Ids are new and distinct -/
theorem validateMembers_eq_ok_iff (typeName : String) (seen : List String) (index : Nat)
    (members : List MemberDescriptor) :
    validateMembers typeName seen index members = .ok () ↔
      (∀ m ∈ members, m.name ≠ "") ∧ (members.map MemberDescriptor.id).Nodup ∧
        ∀ m ∈ members, m.id ∉ seen := by
  induction members generalizing seen index with
  | nil => simp [validateMembers]
  | cons m rest ih =>
    by_cases hn : m.name = ""
    · simp [validateMembers, hn]
    · by_cases hs : m.id ∈ seen
      · simp [validateMembers, hn, hs]
      · have hstep : validateMembers typeName seen index (m :: rest) =
            validateMembers typeName (m.id :: seen) (index + 1) rest := by
          simp [validateMembers, hn, hs]
        rw [hstep, ih]
        simp only [List.mem_cons, List.map_cons, List.nodup_cons, List.mem_map, forall_eq_or_imp, not_or, hn, hs,
          not_exists, not_and, ne_eq, not_false_eq_true, true_and]
        constructor
        · rintro ⟨h₁, h₂, h₃⟩
          exact ⟨h₁, ⟨fun x hx => (h₃ x hx).1, h₂⟩, fun x hx => (h₃ x hx).2⟩
        · rintro ⟨h₁, ⟨h₂, h₃⟩, h₄⟩
          exact ⟨h₁, h₃, fun x hx => ⟨h₂ x hx, h₄ x hx⟩⟩

theorem validateType_eq_ok_iff (t : TypeDescriptor) (hn : t.name ≠ "") : validateType t = .ok () ↔ ValidType t := by
  unfold validateType
  split
  · next h =>
    refine ⟨nofun, fun hv => ?_⟩
    have := hv.interface_open h.1
    rw [h.2] at this
    cases this
  · next hi =>
    split
    · next h =>
      exact ⟨nofun, fun hv => absurd (hv.static_class h.1) h.2⟩
    · next hs =>
      rw [validateMembers_eq_ok_iff]
      constructor
      · rintro ⟨hm, hd, -⟩
        refine ⟨hn, fun hk => ?_, fun ht => ?_, hm, hd⟩
        · exact Bool.eq_false_iff.2 fun hsealed => hi ⟨hk, hsealed⟩
        · exact Classical.not_not.1 fun hk => hs ⟨ht, hk⟩
      · rintro ⟨-, -, -, hm, hd⟩
        exact ⟨hm, hd, fun _ _ => List.not_mem_nil⟩

/-- the types pass when each is valid and their names are new and distinct -/
theorem validateTypes_eq_ok_iff (seen : List String) (index : Nat) (types : List TypeDescriptor) :
    validateTypes seen index types = .ok () ↔
      (∀ t ∈ types, ValidType t) ∧ (types.map TypeDescriptor.name).Nodup ∧ ∀ t ∈ types, t.name ∉ seen := by
  induction types generalizing seen index with
  | nil => simp [validateTypes]
  | cons t rest ih =>
    by_cases hn : t.name = ""
    · have hbad : ¬ValidType t := fun h => h.named hn
      simp [validateTypes, hn, hbad]
    · by_cases hs : t.name ∈ seen
      · simp [validateTypes, hn, hs]
      · have hstep : validateTypes seen index (t :: rest) = .ok () ↔
            validateType t = .ok () ∧ validateTypes (t.name :: seen) (index + 1) rest = .ok () := by
          cases hv : validateType t <;> simp [validateTypes, hn, hs, hv]
        rw [hstep, validateType_eq_ok_iff t hn, ih]
        simp only [List.mem_cons, List.map_cons, List.nodup_cons, List.mem_map, forall_eq_or_imp, not_or, hs,
          not_exists, not_and, not_false_eq_true, true_and]
        constructor
        · rintro ⟨h₀, h₁, h₂, h₃⟩
          exact ⟨⟨h₀, h₁⟩, ⟨fun x hx => (h₃ x hx).1, h₂⟩, fun x hx => (h₃ x hx).2⟩
        · rintro ⟨⟨h₀, h₁⟩, ⟨h₂, h₃⟩, h₄⟩
          exact ⟨h₀, h₁, h₃, fun x hx => ⟨h₂ x hx, h₄ x hx⟩⟩

/-- **The check passes exactly on valid listings.** -/
theorem validate_eq_ok_iff (l : Listing) : l.validate = .ok () ↔ Valid l := by
  unfold validate
  rw [validateTypes_eq_ok_iff]
  constructor
  · rintro ⟨ht, hd, -⟩
    exact ⟨hd, ht⟩
  · rintro ⟨hd, ht⟩
    exact ⟨ht, hd, fun _ _ => List.not_mem_nil⟩

end ApiSurface.Listing
