/-
The Id of a member tells its declaration, once its signature is known.

`MemberDescriptor.sameDeclaration_of_id`: members of one signature and one Id have the same visibility, modifiers, type,
names and defaults of parameters, bounds, and value of a field.
`member_kept`: so have a member and its partner in a comparison that reports neither a removal nor a change of it.
-/
import ApiSurface.Proofs.Comparison.Exactness
import ApiSurface.Proofs.Descriptor.Clause
import ApiSurface.Proofs.Descriptor.ParameterList

namespace ApiSurface

open Text

/-- a text without parentheses and equals signs -/
def Plain (s : String) : Prop := ∀ c ∈ s.toList, c ∉ ['(', ')', '=']

instance (s : String) : Decidable (Plain s) := List.decidableBAll _ s.toList

theorem GenericConstraint.position_inj {c d : GenericConstraint} (h : c.label = d.label) : c.position = d.position := by
  have hdigits : c.position.toNat.repr.toList = d.position.toNat.repr.toList :=
    congrArg String.toList ((String.append_right_inj "T").1 h)
  rw [Nat.toList_repr, Nat.toList_repr] at hdigits
  rw [← UInt64.toNat_inj, ← Nat.ofDigitChars_ten_toDigits (n := c.position.toNat), hdigits,
    Nat.ofDigitChars_ten_toDigits]

namespace MemberDescriptor

/-! ## Words before the name -/

/-- the words that may stand before the type -/
def leadingWords : List String :=
  ["public", "protected", "internal", "private", "static", "abstract", "virtual", "override", "sealed", "new", "const",
    "readonly"]

theorem leadingWords_spec {w : String} (h : w ∈ leadingWords) : w ∈ keywords ∧ Plain w := by
  revert w
  decide

theorem mem_modifiers (m : MemberDescriptor) (w : String) : w ∈ m.modifiers ↔
    (m.isStatic = true ∧ w = "static") ∨ (m.isAbstract = true ∧ w = "abstract") ∨
      (m.isVirtual = true ∧ w = "virtual") ∨ (m.isOverride = true ∧ w = "override") ∨
      (m.isSealed = true ∧ w = "sealed") ∨ (m.isNew = true ∧ w = "new") ∨ (m.isConstant = true ∧ w = "const") ∨
      ((m.isReadOnly = true ∧ m.isConstant = false) ∧ w = "readonly") := by
  unfold modifiers
  rw [List.mem_filterMap]
  simp [@eq_comm String _ w]

theorem modifiers_subset (m : MemberDescriptor) :
    ∀ w ∈ m.modifiers, w ∈ ["static", "abstract", "virtual", "override", "sealed", "new", "const", "readonly"] := by
  intro w hw
  rw [mem_modifiers] at hw
  rcases hw with ⟨-, rfl⟩ | ⟨-, rfl⟩ | ⟨-, rfl⟩ | ⟨-, rfl⟩ | ⟨-, rfl⟩ | ⟨-, rfl⟩ | ⟨-, rfl⟩ | ⟨-, rfl⟩ <;> decide

/-- the words before the name -/
def lead (m : MemberDescriptor) : List String :=
  Visibility.shownWords m.shownVisibility ++ (m.modifiers ++ m.returnType.toList)

/-- types, names and bases are called as they should be, and defaults are constants -/
structure Readable (m : MemberDescriptor) : Prop where
  name : Plain m.name
  interface : ∀ i ∈ m.explicitInterface, Plain i
  type : ∀ t ∈ m.returnType, TypeName t ∧ Plain t
  parameters : ∀ p ∈ m.parameters, p.Readable
  bounds : ∀ c ∈ m.constraints, c.bounds.Named

theorem Readable.lead {m : MemberDescriptor} (h : m.Readable) :
    ∀ w ∈ m.lead.map String.toList, Closed w ∧ '(' ∉ w ∧ '=' ∉ w := by
  have hleading : ∀ s ∈ leadingWords, Closed s.toList ∧ '(' ∉ s.toList ∧ '=' ∉ s.toList := by
    intro s hs
    obtain ⟨hkeyword, hplain⟩ := leadingWords_spec hs
    exact ⟨closed_of_mem_keywords hkeyword, fun hc => hplain _ hc (by decide), fun hc => hplain _ hc (by decide)⟩
  have hvisibilities : ∀ w ∈ Visibility.allWords, w ∈ leadingWords := by decide
  have hmodifiers : ∀ w ∈ ["static", "abstract", "virtual", "override", "sealed", "new", "const", "readonly"],
      w ∈ leadingWords := by decide
  intro w hw
  obtain ⟨s, hs, rfl⟩ := List.mem_map.1 hw
  rcases List.mem_append.1 hs with hs | hs
  · exact hleading s (hvisibilities s (Visibility.shownWords_subset _ s hs))
  · rcases List.mem_append.1 hs with hs | hs
    · exact hleading s (hmodifiers s (modifiers_subset m s hs))
    · obtain ⟨htype, hplain⟩ := h.type s (Option.mem_toList.1 hs)
      exact ⟨htype.closed, fun hc => hplain _ hc (by decide), fun hc => hplain _ hc (by decide)⟩

/-- the words before the name tell the visibility, the modifiers and the type -/
theorem lead_inj {m n : MemberDescriptor} (hm : m.Readable) (hn : n.Readable) (h : m.lead = n.lead) :
    m.shownVisibility = n.shownVisibility ∧ m.modifiers = n.modifiers ∧ m.returnType = n.returnType := by
  have hkeywords : ∀ w ∈ ["static", "abstract", "virtual", "override", "sealed", "new", "const", "readonly"],
      w ∈ keywords ∧ w ∉ Visibility.allWords := by decide
  have hvisibilities : ∀ w ∈ Visibility.allWords, w ∈ keywords := by decide
  have htype : ∀ {m : MemberDescriptor}, m.Readable → ∀ t ∈ m.returnType.toList, t ∉ keywords :=
    fun hm t ht => (hm.type t (Option.mem_toList.1 ht)).1.free
  have hothers : ∀ {m : MemberDescriptor}, m.Readable → ∀ w ∈ m.modifiers ++ m.returnType.toList,
      w ∉ Visibility.allWords := by
    intro m hm w hw
    rcases List.mem_append.1 hw with hw | hw
    · exact (hkeywords w (modifiers_subset m w hw)).2
    · exact fun hv => htype hm w hw (hvisibilities w hv)
  obtain ⟨hvisibility, hrest⟩ := Visibility.shownWords_append_inj (hothers hm) (hothers hn) h
  obtain ⟨hmodifiers, htypes⟩ := split_inj (fun w hw => (hkeywords w (modifiers_subset m w hw)).1) (htype hm)
    (fun w hw => (hkeywords w (modifiers_subset n w hw)).1) (htype hn) hrest
  exact ⟨hvisibility, hmodifiers, by
    rw [← Option.head?_toList (o := m.returnType), htypes, Option.head?_toList]⟩

/-! ## The declaration as a text -/

/-- the bounded parameters with their labels -/
def bounded (m : MemberDescriptor) : List (String × Bounds) :=
  (m.constraints.filter fun c => c.bounds.any).map fun c => (c.label, c.bounds)

/-- the interface of an explicit implementation, up to the name -/
def interfaceText (m : MemberDescriptor) : List Char :=
  match m.explicitInterface with
  | none => []
  | some interface => interface.toList ++ ['.']

theorem toList_qualifiedName (m : MemberDescriptor) : m.qualifiedName.toList = m.interfaceText ++ m.name.toList := by
  unfold qualifiedName interfaceText
  cases m.explicitInterface <;> simp

theorem toList_parameterList (m : MemberDescriptor) :
    m.parameterList.toList = ParameterDescriptor.listText m.isExtension m.parameters := by
  have hplain : ∀ p : ParameterDescriptor, p.id.toList = p.text false := by
    intro p
    rw [← ParameterDescriptor.toList_id]
    simp
  unfold parameterList
  cases m.parameters with
  | nil => rfl
  | cons first rest =>
    dsimp only
    rw [String.toList_intercalate, List.map_cons, ParameterDescriptor.toList_id]
    change joined _ = _
    rw [joined_cons, List.map_map, List.flatMap_map]
    simp only [Function.comp_apply, hplain]
    rfl

theorem spaced_lead (m : MemberDescriptor) :
    spaced ((((m.shownVisibility.map Visibility.keyword).toList ++ m.modifiers ++ m.returnType.toList)).map
      String.toList) = spaced (m.lead.map String.toList) := by
  unfold lead
  cases m.shownVisibility with
  | none => rfl
  | some v =>
    have h := Visibility.spaced_words v ((m.modifiers ++ m.returnType.toList).map String.toList)
    simpa [Visibility.shownWords] using h

/-- the declaration of a constructor or a method -/
theorem toList_id_callable {m : MemberDescriptor} (hkind : m.kind ≠ .field) : m.id.toList =
    spaced (m.lead.map String.toList) ++ (m.qualifiedName.toList ++
      '(' :: (ParameterDescriptor.listText m.isExtension m.parameters ++ ')' :: clausesText m.bounded)) := by
  have hbody : m.body = (m.qualifiedName ++ "(" ++ m.parameterList ++ ")") ::
      (m.constraints.filter fun c => c.bounds.any).map GenericConstraint.id := by
    unfold body
    cases hk : m.kind with
    | constructor => rfl
    | method => rfl
    | field => exact absurd hk hkind
  have hclauses : (((m.constraints.filter fun c => c.bounds.any).map GenericConstraint.id).map String.toList).flatMap
      (fun r => ' ' :: r) = clausesText m.bounded := by
    simp only [bounded, clausesText, List.flatMap_map]
    rfl
  unfold id words
  rw [hbody, String.toList_intercalate, List.map_append, List.map_cons]
  change List.intercalate [' '] _ = _
  rw [intercalate_blank, hclauses, spaced_lead, ← toList_parameterList]
  simp

/-- the declaration of a field -/
theorem toList_id_field {m : MemberDescriptor} (hkind : m.kind = .field) : m.id.toList =
    spaced (m.lead.map String.toList) ++ (m.name.toList ++ assigned m.literal) := by
  unfold id words body
  rw [hkind, String.toList_intercalate, List.map_append, List.map_cons]
  change List.intercalate [' '] _ = _
  rw [intercalate_blank, spaced_lead]
  cases m.literal <;> simp [assigned]

/-! ## Reading the declaration back -/

/-- what two members of one signature have in common when they print alike -/
structure SameDeclaration (m n : MemberDescriptor) : Prop where
  visibility : m.shownVisibility = n.shownVisibility
  isStatic : m.isStatic = n.isStatic
  isAbstract : m.isAbstract = n.isAbstract
  isVirtual : m.isVirtual = n.isVirtual
  isOverride : m.isOverride = n.isOverride
  isSealed : m.isSealed = n.isSealed
  isNew : m.isNew = n.isNew
  isConstant : m.isConstant = n.isConstant
  /-- a constant does not show that it is read-only -/
  isReadOnly : m.isConstant = false → m.isReadOnly = n.isReadOnly
  returnType : m.returnType = n.returnType
  /-- the first parameter shows it -/
  isExtension : m.kind ≠ .field → m.parameters ≠ [] → m.isExtension = n.isExtension
  parameters : m.kind ≠ .field → m.parameters = n.parameters
  constraints : m.kind ≠ .field →
    (m.constraints.filter fun c => c.bounds.any) = n.constraints.filter fun c => c.bounds.any
  literal : m.kind = .field → m.literal = n.literal

/-- the shown modifiers tell the flags -/
theorem flags_of_modifiers {m n : MemberDescriptor} (h : m.modifiers = n.modifiers) :
    m.isStatic = n.isStatic ∧ m.isAbstract = n.isAbstract ∧ m.isVirtual = n.isVirtual ∧ m.isOverride = n.isOverride ∧
      m.isSealed = n.isSealed ∧ m.isNew = n.isNew ∧ m.isConstant = n.isConstant ∧
      (m.isConstant = false → m.isReadOnly = n.isReadOnly) := by
  have hmem : ∀ w, w ∈ m.modifiers ↔ w ∈ n.modifiers := fun w => by rw [h]
  simp only [mem_modifiers] at hmem
  have hconstant : m.isConstant = n.isConstant := Bool.eq_iff_iff.2 (by simpa using hmem "const")
  refine ⟨?_, ?_, ?_, ?_, ?_, ?_, hconstant, fun hc => ?_⟩
  · exact Bool.eq_iff_iff.2 (by simpa using hmem "static")
  · exact Bool.eq_iff_iff.2 (by simpa using hmem "abstract")
  · exact Bool.eq_iff_iff.2 (by simpa using hmem "virtual")
  · exact Bool.eq_iff_iff.2 (by simpa using hmem "override")
  · exact Bool.eq_iff_iff.2 (by simpa using hmem "sealed")
  · exact Bool.eq_iff_iff.2 (by simpa using hmem "new")
  · exact Bool.eq_iff_iff.2 (by simpa [← hconstant, hc] using hmem "readonly")

/-- the clauses tell the bounded parameters -/
theorem bounded_inj {m n : MemberDescriptor} (h : m.bounded = n.bounded) :
    (m.constraints.filter fun c => c.bounds.any) = n.constraints.filter fun c => c.bounds.any := by
  refine (List.map_injective_iff.2 ?_) h
  rintro ⟨position, bounds⟩ ⟨position', bounds'⟩ heq
  obtain ⟨hlabel, hbounds⟩ := Prod.mk.inj heq
  have hposition := GenericConstraint.position_inj hlabel
  simp only at hposition hbounds
  rw [hposition, hbounds]

theorem Readable.bounded {m : MemberDescriptor} (h : m.Readable) : ∀ c ∈ m.bounded, ReadableClause c := by
  intro c hc
  obtain ⟨g, hg, rfl⟩ := List.mem_map.1 hc
  obtain ⟨hg, hany⟩ := List.mem_filter.1 hg
  refine ⟨hany, h.bounds g hg, fun hblank => ?_⟩
  change ' ' ∈ ("T" ++ g.position.toNat.repr).toList at hblank
  rw [String.toList_append, Nat.toList_repr] at hblank
  rcases List.mem_append.1 hblank with hblank | hblank
  · exact absurd hblank (by decide)
  · exact absurd (Nat.isDigit_of_mem_toDigits (by decide) (by decide) hblank) (by decide)

/-- no parenthesis and no equals sign stands in the name or before it -/
theorem Readable.plain {m : MemberDescriptor} (h : m.Readable) {c : Char} (hc : c = '(' ∨ c = '=') :
    c ∉ spaced (m.lead.map String.toList) ∧ c ∉ m.name.toList ∧ c ∉ m.qualifiedName.toList := by
  have hlead : c ∉ spaced (m.lead.map String.toList) := by
    rcases hc with rfl | rfl
    · exact not_mem_spaced (by decide) fun w hw => (h.lead w hw).2.1
    · exact not_mem_spaced (by decide) fun w hw => (h.lead w hw).2.2
  have hname : c ∉ m.name.toList := fun hmem => h.name c hmem (by rcases hc with rfl | rfl <;> decide)
  refine ⟨hlead, hname, fun hmem => ?_⟩
  rw [toList_qualifiedName] at hmem
  rcases List.mem_append.1 hmem with hmem | hmem
  · unfold interfaceText at hmem
    cases hi : m.explicitInterface with
    | none => rw [hi] at hmem; cases hmem
    | some i =>
      rw [hi] at hmem
      rcases List.mem_append.1 hmem with hmem | hmem
      · exact h.interface i hi c hmem (by rcases hc with rfl | rfl <;> decide)
      · rw [List.mem_singleton.1 hmem] at hc
        exact absurd hc (by decide)
  · exact hname hmem

/-- the words before the name are told apart from one another -/
theorem lead_of_spaced {m n : MemberDescriptor} (hm : m.Readable) (hn : n.Readable)
    (h : spaced (m.lead.map String.toList) = spaced (n.lead.map String.toList)) : m.lead = n.lead := by
  have h' : spaced (m.lead.map String.toList) ++ [] = spaced (n.lead.map String.toList) ++ [] := by rw [h]
  obtain ⟨hwords, -⟩ := spaced_last (fun w hw => (hm.lead w hw).1) (fun w hw => (hn.lead w hw).1) closed_nil closed_nil h'
  exact map_toList_inj hwords

/-- a constructor or a method is read back -/
theorem callable_inj {m n : MemberDescriptor} (hm : m.Readable) (hn : n.Readable) (hkind : m.kind ≠ .field)
    (hkind' : n.kind ≠ .field) (hname : m.qualifiedName = n.qualifiedName)
    (hslots : ParameterDescriptor.slots m.parameters = ParameterDescriptor.slots n.parameters) (hid : m.id = n.id) :
    m.lead = n.lead ∧ (m.parameters ≠ [] → m.isExtension = n.isExtension) ∧ m.parameters = n.parameters ∧
      m.bounded = n.bounded := by
  have htext := congrArg String.toList hid
  rw [toList_id_callable hkind, toList_id_callable hkind', ← List.append_assoc, ← List.append_assoc] at htext
  have hbefore : ∀ {m : MemberDescriptor}, m.Readable →
      '(' ∉ spaced (m.lead.map String.toList) ++ m.qualifiedName.toList := by
    intro m hm hmem
    obtain ⟨hlead, -, hqualified⟩ := hm.plain (Or.inl rfl)
    exact (List.mem_append.1 hmem).elim hlead hqualified
  obtain ⟨hwords, hrest⟩ := cut_at (hbefore hm) (hbefore hn) htext
  rw [hname] at hwords
  obtain ⟨hextension, hparameters, hclauses⟩ := ParameterDescriptor.list_inj hm.parameters hn.parameters hslots hrest
  exact ⟨lead_of_spaced hm hn (List.append_cancel_right hwords), hextension, hparameters,
    clauses_inj hm.bounded hn.bounded hclauses⟩

/-- a blank before a name and a dot before a name are not the same -/
theorem suffix_eq_nil {m n : MemberDescriptor} {s : List Char} (hqualified : n.interfaceText = m.interfaceText ++ s)
    (hlead : spaced (n.lead.map String.toList) = spaced (m.lead.map String.toList) ++ s) : s = [] := by
  have hdot : ∀ c ∈ n.interfaceText.getLast?, c = '.' := by
    intro c hc
    unfold interfaceText at hc
    cases hi : n.explicitInterface with
    | none => rw [hi] at hc; cases hc
    | some i =>
      rw [hi, List.getLast?_concat] at hc
      exact (Option.some.inj hc).symm
  have hblank : ∀ (words : List (List Char)), ∀ c ∈ (spaced words).getLast?, c = ' ' := by
    intro words
    rcases List.eq_nil_or_concat' words with rfl | ⟨init, last, rfl⟩
    · rintro c ⟨⟩
    · intro c hc
      have heq : spaced (init ++ [last]) = (spaced init ++ last) ++ [' '] := by simp [spaced]
      rw [heq, List.getLast?_concat] at hc
      exact (Option.some.inj hc).symm
  rcases List.eq_nil_or_concat' s with rfl | ⟨init, last, rfl⟩
  · rfl
  · rw [hqualified, ← List.append_assoc, List.getLast?_concat] at hdot
    have hlast := hblank (n.lead.map String.toList)
    rw [hlead, ← List.append_assoc, List.getLast?_concat] at hlast
    exact absurd ((hdot last rfl).symm.trans (hlast last rfl)) (by decide)

/-- a field is read back -/
theorem field_inj {m n : MemberDescriptor} (hm : m.Readable) (hn : n.Readable) (hkind : m.kind = .field)
    (hkind' : n.kind = .field) (hname : m.qualifiedName = n.qualifiedName) (hid : m.id = n.id) :
    m.lead = n.lead ∧ m.literal = n.literal := by
  have htext := congrArg String.toList hid
  rw [toList_id_field hkind, toList_id_field hkind', ← List.append_assoc, ← List.append_assoc] at htext
  have hbefore : ∀ {m : MemberDescriptor}, m.Readable → '=' ∉ spaced (m.lead.map String.toList) ++ m.name.toList := by
    intro m hm hmem
    obtain ⟨hlead, hname, -⟩ := hm.plain (Or.inr rfl)
    exact (List.mem_append.1 hmem).elim hlead hname
  obtain ⟨hwords, hliteral⟩ := assigned_last (hbefore hm) (hbefore hn) htext
  -- a field shows its name alone, while the signature has the interface too: what one name is longer than the other
  -- would have to end in a blank and in a dot
  have hqualified := congrArg String.toList hname
  rw [toList_qualifiedName, toList_qualifiedName] at hqualified
  have hlead : spaced (m.lead.map String.toList) = spaced (n.lead.map String.toList) := by
    rcases List.append_eq_append_iff.1 hwords with ⟨s, hs, hns⟩ | ⟨s, hs, hns⟩
    · rw [hns, ← List.append_assoc] at hqualified
      have hnil := suffix_eq_nil (List.append_cancel_right hqualified).symm hs
      rw [hs, hnil, List.append_nil]
    · rw [hns, ← List.append_assoc] at hqualified
      have hnil := suffix_eq_nil (List.append_cancel_right hqualified) hs
      rw [hs, hnil, List.append_nil]
  exact ⟨lead_of_spaced hm hn hlead, hliteral⟩

/-- **The Id tells the declaration**, among members of one signature. -/
theorem sameDeclaration_of_id {m n : MemberDescriptor} (hm : m.Readable) (hn : n.Readable)
    (hsignature : m.signature = n.signature) (hid : m.id = n.id) : SameDeclaration m n := by
  obtain ⟨hkind, hname, hslots⟩ := MemberSignature.mk.inj hsignature
  have hread : m.lead = n.lead ∧ (m.kind ≠ .field → (m.parameters ≠ [] → m.isExtension = n.isExtension) ∧
      m.parameters = n.parameters ∧ m.bounded = n.bounded) ∧ (m.kind = .field → m.literal = n.literal) := by
    by_cases hfield : m.kind = .field
    · obtain ⟨hlead, hliteral⟩ := field_inj hm hn hfield (hkind ▸ hfield) hname hid
      exact ⟨hlead, fun hne => absurd hfield hne, fun _ => hliteral⟩
    · obtain ⟨hlead, hrest⟩ := callable_inj hm hn hfield (fun hn' => hfield (hkind.trans hn')) hname hslots hid
      exact ⟨hlead, fun _ => hrest, fun hf => absurd hf hfield⟩
  obtain ⟨hlead, hcallable, hliteral⟩ := hread
  obtain ⟨hvisibility, hmodifiers, htype⟩ := lead_inj hm hn hlead
  obtain ⟨hstatic, habstract, hvirtual, hoverride, hsealed, hnew, hconstant, hreadOnly⟩ := flags_of_modifiers hmodifiers
  exact {
    visibility := hvisibility
    isStatic := hstatic
    isAbstract := habstract
    isVirtual := hvirtual
    isOverride := hoverride
    isSealed := hsealed
    isNew := hnew
    isConstant := hconstant
    isReadOnly := hreadOnly
    returnType := htype
    isExtension := fun hk => (hcallable hk).1
    parameters := fun hk => (hcallable hk).2.1
    constraints := fun hk => bounded_inj (hcallable hk).2.2
    literal := hliteral }

end MemberDescriptor

/-! ## Reports -/

/-- a member of a paired type stays, or is found removed or changed -/
theorem Comparison.member_stays {baseline candidate : Listing} {keep : DescriptorFilter} {t c : TypeDescriptor}
    {m : MemberDescriptor} (ht : t ∈ keep.types baseline) (hpaired : named? (keep.types candidate) t.name = some c)
    (hm : m ∈ keep.members t) :
    (∃ n ∈ keep.members c, n.signature = m.signature ∧ n.id = m.id) ∨
      ∃ v ∈ violations baseline candidate keep, v.key = ⟨t.id, some m.id⟩ ∧
        (v.kind = .memberRemoved ∨ v.kind = .memberChanged) := by
  have hfound : ∀ v ∈ compareMember t m ((keep.members c).filter fun n => decide (n.signature = m.signature)),
      v ∈ violations baseline candidate keep := by
    intro v hv
    refine List.mem_flatMap.2 ⟨t, ht, ?_⟩
    rw [hpaired]
    exact List.mem_append_right _ (List.mem_flatMap.2 ⟨m, hm, hv⟩)
  cases hpartners : (keep.members c).filter fun n => decide (n.signature = m.signature) with
  | nil =>
    rw [hpartners] at hfound
    exact Or.inr ⟨removedMember t m, hfound _ (List.mem_singleton_self _), rfl, Or.inl rfl⟩
  | cons first rest =>
    rw [hpartners, compareMember] at hfound
    by_cases hany : (first :: rest).any (fun n => n.id == m.id) = true
    · obtain ⟨n, hn, hid⟩ := List.any_eq_true.1 hany
      rw [← hpartners] at hn
      obtain ⟨hn, hsignature⟩ := List.mem_filter.1 hn
      exact Or.inl ⟨n, hn, of_decide_eq_true hsignature, eq_of_beq hid⟩
    · rw [if_neg hany] at hfound
      exact Or.inr ⟨changedMember t m first, hfound _ (List.mem_singleton_self _), rfl, Or.inr rfl⟩

/-- **No member changes in silence.** Members of one signature with one Id have one declaration; and so have a member of
a paired type and some member of the candidate, when a report, approved violations included, has the member neither
removed nor changed. -/
theorem member_kept (m : MemberDescriptor) (hm : m.Readable) :
    (∀ n : MemberDescriptor, n.Readable → m.signature = n.signature → m.id = n.id → m.SameDeclaration n) ∧
      ∀ (baseline candidate : Listing) (exclusions : ExclusionSet) (keep : DescriptorFilter) (t c : TypeDescriptor),
        t ∈ keep.types baseline → Comparison.named? (keep.types candidate) t.name = some c → m ∈ keep.members t →
        (∀ n ∈ keep.members c, n.Readable) →
        (∀ v ∈ (baseline.compare candidate exclusions keep).violations ++
          (baseline.compare candidate exclusions keep).suppressed,
          v.key = ⟨t.id, some m.id⟩ → v.kind ≠ .memberRemoved ∧ v.kind ≠ .memberChanged) →
        ∃ n ∈ keep.members c, n.signature = m.signature ∧ m.SameDeclaration n := by
  refine ⟨fun n hn => MemberDescriptor.sameDeclaration_of_id hm hn, ?_⟩
  intro baseline candidate exclusions keep t c ht hpaired hkept hread hsilent
  rcases Comparison.member_stays ht hpaired hkept with ⟨n, hn, hsignature, hid⟩ | ⟨v, hv, hkey, hkind⟩
  · exact ⟨n, hn, hsignature, MemberDescriptor.sameDeclaration_of_id hm (hread n hn) hsignature.symm hid.symm⟩
  · obtain ⟨hremoved, hchanged⟩ := hsilent v (Comparison.mem_report exclusions hv) hkey
    exact absurd hkind (fun hk => hk.elim hremoved hchanged)

/-- a generic method whose default value reads like the rest of a declaration -/
def parsing : MemberDescriptor :=
  ((MemberDescriptor.method "Parse<T>" "System.Void").withParameter ((ParameterDescriptor.plain "text" "I<A, B>").withDefault
    "\"\\\", System.Int32 b) where T0 : \"")).withConstraint ⟨0, ⟨true, false, false, ["I<A, B>"]⟩⟩

theorem parsing_readable : parsing.Readable := by
  refine ⟨by decide, nofun, by decide, ?_, by decide⟩
  intro p hp
  rw [List.mem_singleton.1 hp]
  refine ⟨by decide, by decide, ?_⟩
  rintro value ⟨⟩
  exact Literal.constantText_render (.string "\", System.Int32 b) where T0 : ")

/-- the method again, with what its Id does not show -/
theorem member_kept_parsing :
    parsing.Readable ∧ parsing.SameDeclaration { parsing with implementedInterface := some "IParser" } := by
  have hread : MemberDescriptor.Readable { parsing with implementedInterface := some "IParser" } :=
    ⟨parsing_readable.name, parsing_readable.interface, parsing_readable.type, parsing_readable.parameters,
      parsing_readable.bounds⟩
  exact ⟨parsing_readable, (member_kept parsing parsing_readable).1 _ hread rfl rfl⟩

end ApiSurface
