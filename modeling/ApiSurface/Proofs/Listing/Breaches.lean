/-
Which fault the check of a listing reports.

Each type is held against what stands before it, and each member of it against the members before. A breach has a place:
the index of its type, and there the place of the check that the type fails. The check stops at the breach of the least
place.

`validateMembers_eq_scan`, `validateTypes_eq_scan`: both loops of the check are such.
`validate_exact`: the check passes exactly on valid listings, and otherwise reports the first breach.
-/
import ApiSurface.Proofs.Listing.Validity
import ApiSurface.Proofs.Scan

namespace ApiSurface.Listing

/-! ## The loops of the check -/

/-- a member against those before it -/
def checkMember (typeName : String) (earlier : List MemberDescriptor) (m : MemberDescriptor) : Except SchemaFault Unit :=
  if m.name.isEmpty then .error (.emptyMemberName typeName earlier.length)
  else if (earlier.map MemberDescriptor.id).contains m.id then .error (.duplicateMember typeName m.id)
  else .ok ()

/-- a type against those before it -/
def checkType (before : List TypeDescriptor) (t : TypeDescriptor) : Except SchemaFault Unit :=
  if t.name.isEmpty then .error (.emptyTypeName before.length)
  else if (before.map TypeDescriptor.name).contains t.name then .error (.duplicateType t.name)
  else validateType t

theorem validateMembers_eq_scan (typeName : String) {seen : List String} {earlier : List MemberDescriptor}
    (hseen : ∀ id, id ∈ seen ↔ id ∈ earlier.map MemberDescriptor.id) (members : List MemberDescriptor) :
    validateMembers typeName seen earlier.length members = scan (checkMember typeName) earlier members := by
  induction members generalizing seen earlier with
  | nil => rfl
  | cons m rest ih =>
    have hcontains : seen.contains m.id = (earlier.map MemberDescriptor.id).contains m.id := by
      rw [Bool.eq_iff_iff, List.contains_iff_mem, List.contains_iff_mem, hseen]
    have hmore : ∀ id, id ∈ m.id :: seen ↔ id ∈ (earlier ++ [m]).map MemberDescriptor.id := by
      intro id
      rw [List.map_append, List.mem_append, ← hseen, List.map_singleton, List.mem_singleton, List.mem_cons, or_comm]
    have hrest := ih hmore
    rw [List.length_append, List.length_singleton] at hrest
    rw [validateMembers, scan, checkMember, hcontains]
    split
    · rfl
    · split
      · rfl
      · exact hrest

theorem validateTypes_eq_scan {seen : List String} {before : List TypeDescriptor}
    (hseen : ∀ name, name ∈ seen ↔ name ∈ before.map TypeDescriptor.name) (types : List TypeDescriptor) :
    validateTypes seen before.length types = scan checkType before types := by
  induction types generalizing seen before with
  | nil => rfl
  | cons t rest ih =>
    have hcontains : seen.contains t.name = (before.map TypeDescriptor.name).contains t.name := by
      rw [Bool.eq_iff_iff, List.contains_iff_mem, List.contains_iff_mem, hseen]
    have hmore : ∀ name, name ∈ t.name :: seen ↔ name ∈ (before ++ [t]).map TypeDescriptor.name := by
      intro name
      rw [List.map_append, List.mem_append, ← hseen, List.map_singleton, List.mem_singleton, List.mem_cons, or_comm]
    have hrest := ih hmore
    rw [List.length_append, List.length_singleton] at hrest
    rw [validateTypes, scan, checkType, hcontains]
    split
    · rfl
    · split
      · rfl
      · cases validateType t with
        | error fault => rfl
        | ok _ => exact hrest

/-! ## Breaches -/

/-- what a type is checked for: its name, that no type before it has the name, that it is no sealed interface, that it is
a class if it is static; and of each member the name, and that no member before it has its Id -/
inductive Check where
  | typeName
  | newName
  | openInterface
  | staticClass
  | memberName (index : Nat)
  | newId (index : Nat)

/-- the place of a check among those of a type -/
def Check.place : Check → Nat
  | .typeName => 0
  | .newName => 1
  | .openInterface => 2
  | .staticClass => 3
  | .memberName index => 4 + 2 * index
  | .newId index => 5 + 2 * index

/-- a type that stands after some others fails a check, with a fault -/
inductive Fails (before : List TypeDescriptor) (t : TypeDescriptor) : Check → SchemaFault → Prop
  | typeName : t.name = "" → Fails before t .typeName (.emptyTypeName before.length)
  | newName : t.name ∈ before.map TypeDescriptor.name → Fails before t .newName (.duplicateType t.name)
  | openInterface : t.kind = .interfaceType → t.isSealed = true → Fails before t .openInterface (.sealedInterface t.name)
  | staticClass : t.isStatic = true → t.kind ≠ .classType → Fails before t .staticClass (.staticNonClass t.name)
  | memberName {earlier later : List MemberDescriptor} {m : MemberDescriptor} : t.members = earlier ++ m :: later →
    m.name = "" → Fails before t (.memberName earlier.length) (.emptyMemberName t.name earlier.length)
  | newId {earlier later : List MemberDescriptor} {m : MemberDescriptor} : t.members = earlier ++ m :: later →
    m.id ∈ earlier.map MemberDescriptor.id → Fails before t (.newId earlier.length) (.duplicateMember t.name m.id)

/-- the type at an index fails a check -/
def Breach (l : Listing) (index : Nat) (check : Check) (fault : SchemaFault) : Prop :=
  ∃ before t after, l.types = before ++ t :: after ∧ before.length = index ∧ Fails before t check fault

/-- a breach before all others: by the index of the type, and within a type by the place of the check -/
structure FirstBreach (l : Listing) (index : Nat) (check : Check) (fault : SchemaFault) : Prop where
  breach : Breach l index check fault
  first : ∀ index' check' fault', Breach l index' check' fault' →
    index < index' ∨ index = index' ∧ check.place ≤ check'.place

/-- a value that stands before another one of the same image -/
theorem not_nodup_map {α β : Type} {f : α → β} {before after : List α} {x : α} (h : f x ∈ before.map f) :
    ¬((before ++ x :: after).map f).Nodup := by
  rw [List.map_append, List.nodup_append]
  rintro ⟨-, -, hdisjoint⟩
  exact hdisjoint _ h _ (by simp) rfl

/-- a valid type fails no check, unless its name is taken -/
theorem ValidType.not_fails {t : TypeDescriptor} (h : ValidType t) {before : List TypeDescriptor}
    (hnew : t.name ∉ before.map TypeDescriptor.name) {check : Check} {fault : SchemaFault} :
    ¬Fails before t check fault := by
  intro hfails
  cases hfails with
  | typeName hname => exact h.named hname
  | newName hold => exact hnew hold
  | openInterface hkind hsealed => exact absurd (h.interface_open hkind) (by simp [hsealed])
  | staticClass hstatic hkind => exact hkind (h.static_class hstatic)
  | @memberName earlier later m hmembers hname => exact h.members_named m (by simp [hmembers]) hname
  | newId hmembers hid => exact not_nodup_map hid (hmembers ▸ h.members_distinct)

/-! ## The fault of a type -/

theorem checkMember_eq_ok_iff {typeName : String} {earlier : List MemberDescriptor} {m : MemberDescriptor} :
    checkMember typeName earlier m = .ok () ↔ m.name ≠ "" ∧ m.id ∉ earlier.map MemberDescriptor.id := by
  unfold checkMember
  by_cases hname : m.name = "" <;> by_cases hid : m.id ∈ earlier.map MemberDescriptor.id <;> simp_all

/-- a member that fails does so by its name, or by its Id if it has a name -/
theorem fails_of_checkMember (before : List TypeDescriptor) {t : TypeDescriptor} {earlier later : List MemberDescriptor}
    {m : MemberDescriptor} {fault : SchemaFault} (hmembers : t.members = earlier ++ m :: later)
    (hm : checkMember t.name earlier m = .error fault) :
    ∃ check, Fails before t check fault ∧
      (check = .memberName earlier.length ∨ check = .newId earlier.length ∧ m.name ≠ "") := by
  unfold checkMember at hm
  split at hm
  · next hname =>
    cases hm
    exact ⟨_, .memberName hmembers (String.isEmpty_iff.1 hname), Or.inl rfl⟩
  · next hname =>
    split at hm
    · next hid =>
      cases hm
      exact ⟨_, .newId hmembers (List.contains_iff_mem.1 hid), Or.inr ⟨rfl, mt String.isEmpty_iff.2 hname⟩⟩
    · cases hm

/-- no member that fails stands before one that is the first not to pass -/
theorem place_le_of_checkMember {t : TypeDescriptor} {earlier later fewer more : List MemberDescriptor}
    {m n : MemberDescriptor} {check : Check} (hmembers : t.members = earlier ++ m :: later)
    (hcheck : check = .memberName earlier.length ∨ check = .newId earlier.length ∧ m.name ≠ "")
    (hearlier : ∀ fewer n more, earlier = fewer ++ n :: more → checkMember t.name fewer n = .ok ())
    (hn : t.members = fewer ++ n :: more) :
    (n.name = "" → check.place ≤ Check.place (.memberName fewer.length)) ∧
      (n.id ∈ fewer.map MemberDescriptor.id → check.place ≤ Check.place (.newId fewer.length)) := by
  have hplace : check.place ≤ 5 + 2 * earlier.length := by
    rcases hcheck with rfl | ⟨rfl, -⟩ <;> simp only [Check.place] <;> omega
  rcases split_cases hmembers hn with hlt | ⟨rfl, rfl⟩ | ⟨between, hfewer⟩
  · have hlater : check.place ≤ 4 + 2 * fewer.length := by omega
    exact ⟨fun _ => hlater, fun _ => Nat.le_trans hlater (Nat.add_le_add_right (Nat.le_succ 4) _)⟩
  · refine ⟨fun hname => ?_, fun _ => hplace⟩
    rcases hcheck with rfl | ⟨-, hnamed⟩
    · exact Nat.le_refl _
    · exact absurd hname hnamed
  · obtain ⟨hnamed, hnew⟩ := checkMember_eq_ok_iff.1 (hearlier fewer n between hfewer)
    exact ⟨fun h => absurd h hnamed, fun h => absurd h hnew⟩

/-- **The fault of a type** is that of the first check that it fails. -/
theorem fails_of_checkType {before : List TypeDescriptor} {t : TypeDescriptor} {fault : SchemaFault}
    (h : checkType before t = .error fault) :
    ∃ check, Fails before t check fault ∧ ∀ check' fault', Fails before t check' fault' → check.place ≤ check'.place := by
  unfold checkType validateType at h
  split at h
  · next hname =>
    cases h
    exact ⟨_, .typeName (String.isEmpty_iff.1 hname), fun _ _ _ => Nat.zero_le _⟩
  next hname =>
  rw [String.isEmpty_iff] at hname
  split at h
  · next hold =>
    cases h
    refine ⟨_, .newName (List.contains_iff_mem.1 hold), fun check' fault' h' => ?_⟩
    cases h' <;> grind [Check.place]
  next hnew =>
  rw [List.contains_iff_mem] at hnew
  split at h
  · next hsealed =>
    cases h
    refine ⟨_, .openInterface hsealed.1 hsealed.2, fun check' fault' h' => ?_⟩
    cases h' <;> grind [Check.place]
  next hopen =>
  split at h
  · next hstatic =>
    cases h
    refine ⟨_, .staticClass hstatic.1 hstatic.2, fun check' fault' h' => ?_⟩
    cases h' <;> grind [Check.place]
  next hclass =>
  have hnone : ∀ id, id ∈ ([] : List String) ↔ id ∈ ([] : List MemberDescriptor).map MemberDescriptor.id :=
    fun _ => Iff.rfl
  have hscan : validateMembers t.name [] 0 t.members = scan (checkMember t.name) [] t.members :=
    validateMembers_eq_scan t.name hnone t.members
  rw [hscan] at h
  obtain ⟨earlier, m, later, hmembers, hm, hearlier⟩ := exists_of_scan h
  obtain ⟨check, hfails, hcheck⟩ := fails_of_checkMember before hmembers hm
  refine ⟨check, hfails, fun check' fault' h' => ?_⟩
  cases h' with
  | typeName h' => exact absurd h' hname
  | newName h' => exact absurd h' hnew
  | openInterface hkind hsealed => exact absurd ⟨hkind, hsealed⟩ hopen
  | staticClass hstatic hkind => exact absurd ⟨hstatic, hkind⟩ hclass
  | memberName hn hnamed => exact (place_le_of_checkMember hmembers hcheck hearlier hn).1 hnamed
  | newId hn hid => exact (place_le_of_checkMember hmembers hcheck hearlier hn).2 hid

/-- a type that passes fails no check -/
theorem not_fails_of_checkType {before : List TypeDescriptor} {t : TypeDescriptor} (h : checkType before t = .ok ())
    (check : Check) (fault : SchemaFault) : ¬Fails before t check fault := by
  unfold checkType at h
  split at h
  · cases h
  next hname =>
  rw [String.isEmpty_iff] at hname
  split at h
  · cases h
  next hnew =>
  rw [List.contains_iff_mem] at hnew
  exact (validateType_eq_ok_iff t hname).1 h |>.not_fails hnew

/-! ## The fault of a listing -/

theorem Check.place_inj {check check' : Check} (h : check.place = check'.place) : check = check' := by
  cases check <;> cases check' <;> grind [Check.place]

/-- a check is failed with one fault -/
theorem Fails.unique {before : List TypeDescriptor} {t : TypeDescriptor} {check : Check} {fault fault' : SchemaFault}
    (h : Fails before t check fault) (h' : Fails before t check fault') : fault = fault' := by
  cases h with
  | @newId earlier later m hmembers hid =>
    generalize hcheck : Check.newId earlier.length = check at h'
    cases h' with
    | @newId earlier' later' m' hmembers' hid' =>
      have hlength : earlier.length = earlier'.length := Check.newId.inj hcheck
      rw [hmembers'] at hmembers
      obtain ⟨-, htail⟩ := List.append_inj hmembers hlength.symm
      rw [(List.cons.inj htail).1]
    | _ => cases hcheck
  | @memberName earlier later m hmembers hname =>
    generalize hcheck : Check.memberName earlier.length = check at h'
    cases h' with
    | memberName => rw [Check.memberName.inj hcheck]
    | _ => cases hcheck
  | _ =>
    cases h'
    rfl

/-- the reported fault is that of a breach before all others -/
theorem firstBreach_of_validate {l : Listing} {fault : SchemaFault} (h : l.validate = .error fault) :
    ∃ index check, FirstBreach l index check fault := by
  have hnone : ∀ name, name ∈ ([] : List String) ↔ name ∈ ([] : List TypeDescriptor).map TypeDescriptor.name :=
    fun _ => Iff.rfl
  have hscan : validateTypes [] 0 l.types = scan checkType [] l.types := validateTypes_eq_scan hnone l.types
  rw [validate, hscan] at h
  obtain ⟨before, t, after, htypes, ht, hbefore⟩ := exists_of_scan h
  obtain ⟨check, hfails, hleast⟩ := fails_of_checkType ht
  refine ⟨before.length, check, ⟨before, t, after, htypes, rfl, hfails⟩, ?_⟩
  rintro index' check' fault' ⟨before', t', after', htypes', rfl, hfails'⟩
  rcases split_cases htypes htypes' with hlt | ⟨rfl, rfl⟩ | ⟨between, hsplit⟩
  · exact Or.inl hlt
  · exact Or.inr ⟨rfl, hleast check' fault' hfails'⟩
  · exact absurd hfails' (not_fails_of_checkType (hbefore before' t' between hsplit) check' fault')

/-- a valid listing breaches no rule -/
theorem Valid.not_breach {l : Listing} (h : Valid l) {index : Nat} {check : Check} {fault : SchemaFault} :
    ¬Breach l index check fault := by
  rintro ⟨before, t, after, htypes, -, hfails⟩
  refine (h.types t (by simp [htypes])).not_fails (fun hold => ?_) hfails
  exact not_nodup_map hold (htypes ▸ h.distinct)

/-- no two breaches stand before all others -/
theorem FirstBreach.unique {l : Listing} {index index' : Nat} {check check' : Check} {fault fault' : SchemaFault}
    (h : FirstBreach l index check fault) (h' : FirstBreach l index' check' fault') : fault = fault' := by
  have hle := h.first _ _ _ h'.breach
  have hge := h'.first _ _ _ h.breach
  obtain rfl : index = index' := by omega
  obtain rfl : check = check' := Check.place_inj (by omega)
  obtain ⟨before, t, after, htypes, hlength, hfails⟩ := h.breach
  obtain ⟨before', t', after', htypes', hlength', hfails'⟩ := h'.breach
  rw [htypes] at htypes'
  obtain ⟨rfl, htail⟩ := List.append_inj htypes' (hlength.trans hlength'.symm)
  obtain ⟨rfl, -⟩ := List.cons.inj htail
  exact hfails.unique hfails'

/-- **The check reports the first breach.** It passes exactly on valid listings, which are those without a breach. On any other
it reports the fault of the breach before all others: at the least index of a type, and there of the least check. -/
theorem validate_exact (l : Listing) :
    (l.validate = .ok () ↔ Valid l) ∧ (Valid l ↔ ∀ index check fault, ¬Breach l index check fault) ∧
      ∀ fault, l.validate = .error fault ↔ ∃ index check, FirstBreach l index check fault := by
  have hreported : ∀ fault, l.validate = .error fault → ∃ index check, FirstBreach l index check fault :=
    fun _ => firstBreach_of_validate
  have hpasses : (∀ index check fault, ¬Breach l index check fault) → l.validate = .ok () := by
    intro hnone
    cases hv : l.validate with
    | ok _ => rfl
    | error fault =>
      obtain ⟨index, check, hfirst⟩ := hreported fault hv
      exact absurd hfirst.breach (hnone index check fault)
  refine ⟨validate_eq_ok_iff l, ⟨fun h _ _ _ => h.not_breach, fun h => (validate_eq_ok_iff l).1 (hpasses h)⟩, ?_⟩
  refine fun fault => ⟨hreported fault, ?_⟩
  rintro ⟨index, check, hfirst⟩
  cases hv : l.validate with
  | ok _ => exact absurd hfirst.breach ((validate_eq_ok_iff l).1 hv).not_breach
  | error fault' =>
    obtain ⟨index', check', hfirst'⟩ := hreported fault' hv
    rw [hfirst'.unique hfirst]

/-- a type that takes a name again counts as that before it counts as a sealed interface -/
example : Listing.validate ⟨"Lib", [.ofClass "A", { TypeDescriptor.ofInterface "A" with isSealed := true }]⟩ =
    .error (.duplicateType "A") := rfl

end ApiSurface.Listing
