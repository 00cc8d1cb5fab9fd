/-
Listings survive being written and read, whatever they hold.

`ofText_compact` and `ofText_pretty`: the texts of a listing are read as the listing.
`decode_toJson`: so is its value in memory.
-/
import ApiSurface.Listing.Validation
import ApiSurface.Proofs.Json.Nesting
import ApiSurface.Proofs.Json.Reading
import ApiSurface.Proofs.Json.Sorted

namespace ApiSurface

open Json Json.Fields

/-! ## Words -/

theorem Visibility.reads (v : Visibility) : Reads decoder v.toJson v := reads_oneOf (by cases v <;> rfl)

theorem TypeKind.reads (k : TypeKind) : Reads decoder k.toJson k := reads_oneOf (by cases k <;> rfl)

theorem MemberKind.reads (k : MemberKind) : Reads decoder k.toJson k := reads_oneOf (by cases k <;> rfl)

theorem Direction.reads (d : Direction) : Reads decoder d.toJson d := reads_oneOf (by cases d <;> rfl)

theorem reads_strings (ss : List String) : ∀ s ∈ ss, Reads Decoder.string (.string s) s := fun s _ => reads_string s

/-! ## Descriptors -/

theorem ParameterDescriptor.reads (p : ParameterDescriptor) : Reads decoder p.toJson p := by
  refine Writes.reads_object ?_ _
  exact writes_record ParameterDescriptor.mk
    |>.and (writes_required (reads_string p.name)) (by decide)
    |>.and (writes_required (reads_string p.type)) (by decide)
    |>.and (writes_orElse p.direction.reads) (by decide)
    |>.and (writes_optional reads_string p.default) (by decide)
    |>.and (writes_flag "IsParams" p.isParams) (by decide)

/-- bounds stand among the other members of their object -/
theorem members_bounds (others : Members) (b : Bounds) : others ++ b.members =
    others ++ Json.flag "New" b.new ++ Json.flag "Class" b.reference ++ Json.flag "Struct" b.value ++
      Json.list "BaseTypeOrInterfaces" .string b.bases := by
  simp only [Bounds.members, List.append_assoc]

theorem GenericParameter.reads (g : GenericParameter) : Reads decoder g.toJson g := by
  unfold toJson
  rw [members_bounds]
  refine Writes.reads_object ?_ _
  exact writes_record (fun name new reference value bases => (⟨name, ⟨new, reference, value, bases⟩⟩ : GenericParameter))
    |>.and (writes_required (reads_string g.name)) (by decide)
    |>.and (writes_flag "New" g.bounds.new) (by decide)
    |>.and (writes_flag "Class" g.bounds.reference) (by decide)
    |>.and (writes_flag "Struct" g.bounds.value) (by decide)
    |>.and (writes_list (reads_strings g.bounds.bases)) (by decide)

theorem GenericConstraint.reads (c : GenericConstraint) : Reads decoder c.toJson c := by
  unfold toJson
  rw [members_bounds]
  refine Writes.reads_object ?_ _
  exact writes_record (fun position new reference value bases =>
      (⟨position, ⟨new, reference, value, bases⟩⟩ : GenericConstraint))
    |>.and (writes_orElse (reads_word64 "usize" c.position)) (by decide)
    |>.and (writes_flag "New" c.bounds.new) (by decide)
    |>.and (writes_flag "Class" c.bounds.reference) (by decide)
    |>.and (writes_flag "Struct" c.bounds.value) (by decide)
    |>.and (writes_list (reads_strings c.bounds.bases)) (by decide)

theorem MemberDescriptor.reads (m : MemberDescriptor) : Reads decoder m.toJson m := by
  refine Writes.reads_object ?_ _
  exact writes_record MemberDescriptor.mk
    |>.and (writes_required m.kind.reads) (by decide)
    |>.and (writes_required (reads_string m.name)) (by decide)
    |>.and (writes_list fun p _ => p.reads) (by decide)
    |>.and (writes_optional reads_string m.returnType) (by decide)
    |>.and (writes_flag "Sealed" m.isSealed) (by decide)
    |>.and (writes_flag "Static" m.isStatic) (by decide)
    |>.and (writes_flag "Virtual" m.isVirtual) (by decide)
    |>.and (writes_flag "Override" m.isOverride) (by decide)
    |>.and (writes_flag "Abstract" m.isAbstract) (by decide)
    |>.and (writes_flag "New" m.isNew) (by decide)
    |>.and (writes_flag "Extension" m.isExtension) (by decide)
    |>.and (writes_flag "ReadOnly" m.isReadOnly) (by decide)
    |>.and (writes_optional reads_string m.explicitInterface) (by decide)
    |>.and (writes_optional reads_string m.implementedInterface) (by decide)
    |>.and (writes_optional Visibility.reads m.visibility) (by decide)
    |>.and (writes_list fun c _ => c.reads) (by decide)
    |>.and (writes_flag "Constant" m.isConstant) (by decide)
    |>.and (writes_optional reads_string m.literal) (by decide)

theorem TypeDescriptor.reads (t : TypeDescriptor) : Reads decoder t.toJson t := by
  refine Writes.reads_object ?_ _
  exact writes_record TypeDescriptor.mk
    |>.and (writes_required (reads_string t.name)) (by decide)
    |>.and (writes_required t.visibility.reads) (by decide)
    |>.and (writes_required t.kind.reads) (by decide)
    |>.and (writes_flag "Abstract" t.isAbstract) (by decide)
    |>.and (writes_flag "Static" t.isStatic) (by decide)
    |>.and (writes_flag "Sealed" t.isSealed) (by decide)
    |>.and (writes_optional reads_string t.baseType) (by decide)
    |>.and (writes_list (reads_strings t.interfaces)) (by decide)
    |>.and (writes_list fun g _ => g.reads) (by decide)
    |>.and (writes_list fun m _ => m.reads) (by decide)

/-- **A listing is read back** from its value, however the value is laid out. -/
theorem Listing.reads (l : Listing) : Reads decoder l.toJson l := by
  refine Writes.reads_object ?_ _
  exact writes_record Listing.mk
    |>.and (writes_required (reads_string l.identity)) (by decide)
    |>.and (writes_list fun t _ => t.reads) (by decide)

/-! ## Nesting -/

theorem fitsAll_bounds (n : Nat) (b : Bounds) : FitsAll (n + 1) b.members :=
  fitsAll_flag _ "New" b.new
    |>.append (fitsAll_flag _ "Class" b.reference)
    |>.append (fitsAll_flag _ "Struct" b.value)
    |>.append (fitsAll_list "BaseTypeOrInterfaces" b.bases fun s _ => .string n s)

theorem ParameterDescriptor.fits (n : Nat) (p : ParameterDescriptor) : Fits (n + 1) p.toJson := by
  have hdirection : FitsAll n (if p.direction = .input then [] else member "Direction" p.direction.toJson) := by
    split
    · exact nofun
    · exact fitsAll_member _ (.string n _)
  exact .object (fitsAll_member "Name" (.string n p.name)
    |>.append (fitsAll_member "Type" (.string n p.type))
    |>.append hdirection
    |>.append (fitsAll_optional "DefaultValue" p.default)
    |>.append (fitsAll_flag n "IsParams" p.isParams))

theorem GenericParameter.fits (n : Nat) (g : GenericParameter) : Fits (n + 2) g.toJson :=
  .object (fitsAll_member "ParameterName" (.string (n + 1) g.name) |>.append (fitsAll_bounds n g.bounds))

theorem GenericConstraint.fits (n : Nat) (c : GenericConstraint) : Fits (n + 2) c.toJson := by
  have hposition : FitsAll (n + 1)
      (if c.position = 0 then [] else member "ParameterPosition" (.nat c.position.toNat)) := by
    split
    · exact nofun
    · exact fitsAll_member _ (.nat (n + 1) c.position.toNat_lt_size)
  exact .object (hposition.append (fitsAll_bounds n c.bounds))

theorem MemberDescriptor.fits (n : Nat) (m : MemberDescriptor) : Fits (n + 4) m.toJson :=
  .object (fitsAll_member "Kind" (.string (n + 3) m.kind.name)
    |>.append (fitsAll_member "Name" (.string (n + 3) m.name))
    |>.append (fitsAll_list "Parameters" m.parameters fun p _ => p.fits (n + 1))
    |>.append (fitsAll_optional "ReturnType" m.returnType)
    |>.append (fitsAll_flag _ "Sealed" m.isSealed)
    |>.append (fitsAll_flag _ "Static" m.isStatic)
    |>.append (fitsAll_flag _ "Virtual" m.isVirtual)
    |>.append (fitsAll_flag _ "Override" m.isOverride)
    |>.append (fitsAll_flag _ "Abstract" m.isAbstract)
    |>.append (fitsAll_flag _ "New" m.isNew)
    |>.append (fitsAll_flag _ "Extension" m.isExtension)
    |>.append (fitsAll_flag _ "ReadOnly" m.isReadOnly)
    |>.append (fitsAll_optional "ExplicitInterface" m.explicitInterface)
    |>.append (fitsAll_optional "ImplementedInterface" m.implementedInterface)
    |>.append (fitsAll_optional "Visibility" m.visibility)
    |>.append (fitsAll_list "GenericConstraints" m.constraints fun c _ => c.fits n)
    |>.append (fitsAll_flag _ "Constant" m.isConstant)
    |>.append (fitsAll_optional "Literal" m.literal))

theorem TypeDescriptor.fits (n : Nat) (t : TypeDescriptor) : Fits (n + 6) t.toJson :=
  .object (fitsAll_member "Name" (.string (n + 5) t.name)
    |>.append (fitsAll_member "Visibility" (.string (n + 5) t.visibility.name))
    |>.append (fitsAll_member "Kind" (.string (n + 5) t.kind.name))
    |>.append (fitsAll_flag _ "Abstract" t.isAbstract)
    |>.append (fitsAll_flag _ "Static" t.isStatic)
    |>.append (fitsAll_flag _ "Sealed" t.isSealed)
    |>.append (fitsAll_optional "BaseType" t.baseType)
    |>.append (fitsAll_list "ImplementedInterfaces" t.interfaces fun s _ => .string (n + 4) s)
    |>.append (fitsAll_list "GenericParameters" t.genericParameters fun g _ => g.fits (n + 2))
    |>.append (fitsAll_list "Members" t.members fun m _ => m.fits n))

/-- a listing nests eight deep at most -/
theorem Listing.fits (l : Listing) : Fits 8 l.toJson :=
  .object (fitsAll_member "AssemblyIdentity" (.string 7 l.identity)
    |>.append (fitsAll_list "Types" l.types fun t _ => t.fits 0))

/-! ## Texts and values -/

namespace Listing

theorem decoder_ofJson (l : Listing) (source : Source) : decoder source (Draft.ofJson l.toJson) = .ok l :=
  l.reads id rearranges_id source

/-- **A listing is read back from its compact text.** -/
theorem ofText_compact (l : Listing) : ofText l.toJson.compact = .ok l := by
  unfold ofText
  rw [read_compact decoder l.fits (by decide), decoder_ofJson]
  rfl

/-- **A listing is read back from its pretty text**, also with a line break at its end. -/
theorem ofText_pretty (l : Listing) :
    ofText l.toJson.pretty = .ok l ∧ ofText (l.toJson.pretty ++ "\n") = .ok l := by
  obtain ⟨hpretty, hline⟩ := read_pretty decoder l.fits (by decide)
  unfold ofText
  rw [hpretty, hline, decoder_ofJson]
  exact ⟨rfl, rfl⟩

/-- **A listing is read back from its value in memory.** -/
theorem decode_toJson (l : Listing) : decode decoder l.toJson = .ok l := l.reads sorted rearranges_sorted .inMemory

end Listing

end ApiSurface
