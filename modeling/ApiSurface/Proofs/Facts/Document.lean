/-
Symbol facts survive being written and read, unless a constant is a double.

`FloatFree` says that no constant is a double. Then the value for some facts is read as the facts, and there is room for the
value where the facts were read.

`FactSet.reads`: a fact set is read back from its value.
`FactSet.within_decoder`: a fact set that was read from a text can be written.
-/
import ApiSurface.Facts.Set
import ApiSurface.Proofs.Listing.Document
import ApiSurface.Proofs.TypeRef.Document

namespace ApiSurface

open Json Json.Fields

/-! ## Doubles -/

/-- the constant is no double -/
def Literal.FloatFree (l : Literal) : Prop := ∀ d, l ≠ .float d

def ParameterFacts.FloatFree (p : ParameterFacts) : Prop := ∀ l ∈ p.default, l.FloatFree

def MemberFacts.FloatFree (m : MemberFacts) : Prop := ∀ l ∈ m.literal, l.FloatFree

def MemberEntry.FloatFree (m : MemberEntry) : Prop := m.facts.FloatFree ∧ ∀ p ∈ m.parameters, p.FloatFree

def TypeEntry.FloatFree (t : TypeEntry) : Prop := ∀ m ∈ t.members, m.FloatFree

/-- no constant in the set is a double -/
def FactSet.FloatFree (s : FactSet) : Prop := ∀ t ∈ s.entries, t.FloatFree

/-! ## Constants -/

theorem reads_character (c : Char) : Reads Decoder.character (.string (String.ofList [c])) c := by
  intro t ht source
  rw [ht.string]
  unfold Decoder.character Draft.ofJson
  simp

theorem fits_int64 (n : Nat) (k : Int64) : Fits n (.number (.int k.toInt)) := by
  have hsize : UInt64.size = 2 ^ 64 := rfl
  have hlow := k.le_toInt
  have hhigh := k.toInt_lt
  cases hk : k.toInt with
  | ofNat m =>
    rw [hk] at hhigh
    have hm : (m : Int) < 2 ^ 63 := hhigh
    exact .nat n (by omega)
  | negSucc m =>
    rw [hk, Int.negSucc_eq] at hlow
    exact .negSucc n (by omega)

namespace Literal

theorem decoder_null (source : Source) (l : Literal) : decoder source .null ≠ .ok l := refuse_ne_ok _ _ _

theorem reads {l : Literal} (h : l.FloatFree) : Reads decoder l.toJson l := by
  have hkeys : "kind" ≠ "value" := by decide
  cases l with
  | null => exact reads_labelled_bare rfl rfl
  | bool b => exact reads_labelled hkeys rfl ((reads_bool b).map Literal.bool)
  | int n => exact reads_labelled hkeys rfl ((reads_int64 n).map Literal.int)
  | uint n => exact reads_labelled hkeys rfl ((reads_word64 "u64" n).map Literal.uint)
  | float d => exact absurd rfl (h d)
  | char c => exact reads_labelled hkeys rfl ((reads_character c).map Literal.char)
  | string s => exact reads_labelled hkeys rfl ((reads_string s).map Literal.string)

theorem fits {l : Literal} (h : l.FloatFree) (n : Nat) : Fits (n + 1) l.toJson := by
  have hlabelled : ∀ kind v, Fits n v → Fits (n + 1) (labelledJson kind v) := fun kind v hv =>
    .object (fitsAll_member "kind" (.string n kind) |>.append (fitsAll_member "value" hv))
  cases l with
  | null => exact .object (fitsAll_member "kind" (.string n "null"))
  | bool b => exact hlabelled _ _ (.bool n b)
  | int k => exact hlabelled _ _ (fits_int64 n k)
  | uint k => exact hlabelled _ _ (.nat n k.toNat_lt_size)
  | float d => exact absurd rfl (h d)
  | char c => exact hlabelled _ _ (.string n _)
  | string s => exact hlabelled _ _ (.string n s)

theorem within_decoder : Json.Within decoder fun n l => l.FloatFree → Fits n l.toJson := by
  intro source d n draft l hd hdraft hread hfree
  obtain ⟨m, rfl⟩ := exists_inside_labelled hd hdraft hread
  exact fits hfree m

end Literal

/-! ## Parameters -/

/-- a flag that is always written -/
theorem writes_bool (key : String) (b : Bool) : (Fields.flag key).Writes (member key (.bool b)) b := by
  change (field key Decoder.bool (some false)).Writes (member key (.bool b)) b
  exact writes_field (reads_bool b)

namespace ParameterFacts

theorem reads {p : ParameterFacts} (h : p.FloatFree) : Reads decoder p.toJson p := by
  refine Writes.reads_object ?_ _
  exact writes_record ParameterFacts.mk
    |>.and (writes_required (reads_string p.name)) (by decide)
    |>.and (writes_required p.type.reads) (by decide)
    |>.and (writes_bool "is_out" p.isOut) (by decide)
    |>.and (writes_optional_value Literal.decoder_null fun l hl => Literal.reads (h l hl)) (by decide)
    |>.and (writes_bool "is_params" p.isParams) (by decide)

theorem within_decoder : Json.Within decoder fun n p => p.FloatFree → Fits n p.toJson := by
  have hrecord : (Fields.record ParameterFacts.mk).Within fun n y =>
      ∀ name : String, True → ∀ type : TypeRef, Fits n type.toJson → ∀ isOut : Bool, True →
      ∀ default : Option Literal, (∀ l ∈ default, l.FloatFree → Fits n l.toJson) → ∀ isParams : Bool, True →
      (y name type isOut default isParams).FloatFree → Fits (n + 1) (y name type isOut default isParams).toJson :=
    within_record fun n name _ type htype isOut _ default hdefault isParams _ hfree =>
      .object (fitsAll_member "name" (.string n name)
        |>.append (fitsAll_member "type" htype)
        |>.append (fitsAll_member "is_out" (.bool n isOut))
        |>.append (fitsAll_optional_value "default_value" fun l hl => hdefault l hl (hfree l hl))
        |>.append (fitsAll_member "is_params" (.bool n isParams)))
  refine Within.inside ?_ _
  exact hrecord
    |>.and (within_anything _ _ _)
    |>.and (within_required _ TypeRef.within_decoder)
    |>.and (within_flag _)
    |>.and (Fields.within_optional _ Literal.within_decoder)
    |>.and (within_flag _)

end ParameterFacts

namespace GenericFacts

theorem reads (g : GenericFacts) : Reads decoder g.toJson g := by
  refine Writes.reads_object ?_ _
  exact writes_record GenericFacts.mk
    |>.and (writes_required (reads_string g.name)) (by decide)
    |>.and (writes_required (reads_word64 "usize" g.position)) (by decide)
    |>.and (writes_bool "default_constructor" g.defaultConstructor) (by decide)
    |>.and (writes_bool "reference_type" g.referenceType) (by decide)
    |>.and (writes_bool "value_type" g.valueType) (by decide)
    |>.and (writes_list fun c _ => c.reads) (by decide)

theorem within_decoder : Json.Within decoder fun n g => Fits n g.toJson := by
  have hrecord : (Fields.record GenericFacts.mk).Within fun n y =>
      ∀ name : String, True → ∀ position : UInt64, True → ∀ default : Bool, True → ∀ reference : Bool, True →
      ∀ value : Bool, True → ∀ constraints : List TypeRef, (∀ c ∈ constraints, ∃ m, n = m + 1 ∧ Fits m c.toJson) →
      Fits (n + 1) (y name position default reference value constraints).toJson :=
    within_record fun n name _ position _ default _ reference _ value _ constraints hconstraints =>
      .object (fitsAll_member "name" (.string n name)
        |>.append (fitsAll_member "position" (.nat n position.toNat_lt_size))
        |>.append (fitsAll_member "default_constructor" (.bool n default))
        |>.append (fitsAll_member "reference_type" (.bool n reference))
        |>.append (fitsAll_member "value_type" (.bool n value))
        |>.append (fitsAll_list_inside "constraints" hconstraints))
  refine Within.inside ?_ _
  exact hrecord
    |>.and (within_anything _ _ _)
    |>.and (within_anything _ _ _)
    |>.and (within_flag _)
    |>.and (within_flag _)
    |>.and (within_flag _)
    |>.and (Fields.within_list _ TypeRef.within_decoder)

end GenericFacts

/-! ## Members -/

namespace MemberFacts

theorem writes {m : MemberFacts} (h : m.FloatFree) : fields.Writes m.members m :=
  writes_record MemberFacts.mk
    |>.and (writes_required m.kind.reads) (by decide)
    |>.and (writes_required (reads_string m.name)) (by decide)
    |>.and (writes_required m.visibility.reads) (by decide)
    |>.and (writes_optional_value TypeRef.decoder_null fun r _ => r.reads) (by decide)
    |>.and (writes_bool "is_static" m.isStatic) (by decide)
    |>.and (writes_bool "is_virtual" m.isVirtual) (by decide)
    |>.and (writes_bool "is_abstract" m.isAbstract) (by decide)
    |>.and (writes_bool "is_final" m.isFinal) (by decide)
    |>.and (writes_bool "is_new_slot" m.isNewSlot) (by decide)
    |>.and (writes_bool "hides_base" m.hidesBase) (by decide)
    |>.and (writes_bool "is_extension" m.isExtension) (by decide)
    |>.and (writes_bool "is_init_only" m.isInitOnly) (by decide)
    |>.and (writes_optional_value Literal.decoder_null fun l hl => Literal.reads (h l hl)) (by decide)
    |>.and (writes_optional_value TypeRef.decoder_null fun r _ => r.reads) (by decide)
    |>.and (writes_list fun r _ => r.reads) (by decide)

theorem within_fields : fields.Within fun n m => m.FloatFree → FitsAll n m.members := by
  have hrecord : (Fields.record MemberFacts.mk).Within fun n y =>
      ∀ kind : MemberKind, True → ∀ name : String, True → ∀ visibility : Visibility, True →
      ∀ returnType : Option TypeRef, (∀ r ∈ returnType, Fits n r.toJson) → ∀ isStatic : Bool, True →
      ∀ isVirtual : Bool, True → ∀ isAbstract : Bool, True → ∀ isFinal : Bool, True → ∀ isNewSlot : Bool, True →
      ∀ hidesBase : Bool, True → ∀ isExtension : Bool, True → ∀ isInitOnly : Bool, True →
      ∀ literal : Option Literal, (∀ l ∈ literal, l.FloatFree → Fits n l.toJson) →
      ∀ explicitInterface : Option TypeRef, (∀ r ∈ explicitInterface, Fits n r.toJson) →
      ∀ implements : List TypeRef, (∀ r ∈ implements, ∃ m, n = m + 1 ∧ Fits m r.toJson) →
      (y kind name visibility returnType isStatic isVirtual isAbstract isFinal isNewSlot hidesBase isExtension isInitOnly literal
        explicitInterface implements).FloatFree →
      FitsAll n (y kind name visibility returnType isStatic isVirtual isAbstract isFinal isNewSlot hidesBase isExtension
        isInitOnly literal explicitInterface implements).members :=
    within_record fun n kind _ name _ visibility _ returnType hreturnType isStatic _ isVirtual _ isAbstract _ isFinal _ isNewSlot
        _ hidesBase _ isExtension _ isInitOnly _ literal hliteral explicitInterface hexplicit implements himplements hfree =>
      fitsAll_member "kind" (.string n kind.name)
        |>.append (fitsAll_member "name" (.string n name))
        |>.append (fitsAll_member "visibility" (.string n visibility.name))
        |>.append (fitsAll_optional_value "return_type" hreturnType)
        |>.append (fitsAll_member "is_static" (.bool n isStatic))
        |>.append (fitsAll_member "is_virtual" (.bool n isVirtual))
        |>.append (fitsAll_member "is_abstract" (.bool n isAbstract))
        |>.append (fitsAll_member "is_final" (.bool n isFinal))
        |>.append (fitsAll_member "is_new_slot" (.bool n isNewSlot))
        |>.append (fitsAll_member "hides_base" (.bool n hidesBase))
        |>.append (fitsAll_member "is_extension" (.bool n isExtension))
        |>.append (fitsAll_member "is_init_only" (.bool n isInitOnly))
        |>.append (fitsAll_optional_value "literal" fun l hl => hliteral l hl (hfree l hl))
        |>.append (fitsAll_optional_value "explicit_interface" hexplicit)
        |>.append (fitsAll_list_inside "implements" himplements)
  exact hrecord
    |>.and (within_anything _ _ _)
    |>.and (within_anything _ _ _)
    |>.and (within_anything _ _ _)
    |>.and (Fields.within_optional _ TypeRef.within_decoder)
    |>.and (within_flag _)
    |>.and (within_flag _)
    |>.and (within_flag _)
    |>.and (within_flag _)
    |>.and (within_flag _)
    |>.and (within_flag _)
    |>.and (within_flag _)
    |>.and (within_flag _)
    |>.and (Fields.within_optional _ Literal.within_decoder)
    |>.and (Fields.within_optional _ TypeRef.within_decoder)
    |>.and (Fields.within_list _ TypeRef.within_decoder)

end MemberFacts

namespace MemberEntry

theorem reads {m : MemberEntry} (h : m.FloatFree) : Reads decoder m.toJson m := by
  have hcontents : contents.Writes (Json.list "parameters" ParameterFacts.toJson m.parameters ++
      Json.list "generic_parameters" GenericFacts.toJson m.generics) (m.parameters, m.generics) :=
    writes_record Prod.mk
      |>.and (writes_list fun p hp => ParameterFacts.reads (h.2 p hp)) (by decide)
      |>.and (writes_list fun g _ => g.reads) (by decide)
  unfold toJson
  rw [List.append_assoc]
  exact hcontents.reads_flattened (MemberFacts.writes h.1) (by decide) _ _

theorem within_decoder : Json.Within decoder fun n m => m.FloatFree → Fits n m.toJson := by
  have hrecord : (Fields.record (Prod.mk : List ParameterFacts → List GenericFacts → _)).Within fun n y =>
      ∀ parameters : List ParameterFacts, (∀ p ∈ parameters, ∃ m, n = m + 1 ∧ (p.FloatFree → Fits m p.toJson)) →
      ∀ generics : List GenericFacts, (∀ g ∈ generics, ∃ m, n = m + 1 ∧ Fits m g.toJson) →
      (∀ p ∈ (y parameters generics).1, p.FloatFree) →
      FitsAll n (Json.list "parameters" ParameterFacts.toJson (y parameters generics).1 ++
        Json.list "generic_parameters" GenericFacts.toJson (y parameters generics).2) :=
    within_record fun n parameters hparameters generics hgenerics hfree =>
      fitsAll_list_inside "parameters" (fun p hp => (hparameters p hp).imp fun m hm => ⟨hm.1, hm.2 (hfree p hp)⟩)
        |>.append (fitsAll_list_inside "generic_parameters" hgenerics)
  have hcontents : contents.Within fun n c => (∀ p ∈ c.1, p.FloatFree) →
      FitsAll n (Json.list "parameters" ParameterFacts.toJson c.1 ++ Json.list "generic_parameters" GenericFacts.toJson c.2) :=
    hrecord
      |>.and (Fields.within_list _ ParameterFacts.within_decoder)
      |>.and (Fields.within_list _ GenericFacts.within_decoder)
  refine (hcontents.flattened MemberFacts.within_fields _ _).imp ?_
  rintro n _ ⟨k, facts, c, rfl, rfl, hfacts, hc⟩ ⟨hfree, hparameters⟩
  unfold toJson
  rw [List.append_assoc]
  exact .object ((hfacts hfree).append (hc hparameters))

end MemberEntry

/-! ## Types -/

namespace TypeFacts

theorem writes (t : TypeFacts) : fields.Writes t.members t :=
  writes_record TypeFacts.mk
    |>.and (writes_required t.reference.reads) (by decide)
    |>.and (writes_required t.visibility.reads) (by decide)
    |>.and (writes_required t.kind.reads) (by decide)
    |>.and (writes_bool "is_abstract" t.isAbstract) (by decide)
    |>.and (writes_bool "is_sealed" t.isSealed) (by decide)
    |>.and (writes_optional_value TypeRef.decoder_null fun r _ => r.reads) (by decide)
    |>.and (writes_list fun r _ => r.reads) (by decide)

theorem within_fields : fields.Within fun n t => FitsAll n t.members := by
  have hrecord : (Fields.record TypeFacts.mk).Within fun n y =>
      ∀ reference : TypeRef, Fits n reference.toJson → ∀ visibility : Visibility, True → ∀ kind : TypeKind, True →
      ∀ isAbstract : Bool, True → ∀ isSealed : Bool, True →
      ∀ baseType : Option TypeRef, (∀ r ∈ baseType, Fits n r.toJson) →
      ∀ interfaces : List TypeRef, (∀ r ∈ interfaces, ∃ m, n = m + 1 ∧ Fits m r.toJson) →
      FitsAll n (y reference visibility kind isAbstract isSealed baseType interfaces).members :=
    within_record fun n reference hreference visibility _ kind _ isAbstract _ isSealed _ baseType hbase interfaces
        hinterfaces =>
      fitsAll_member "reference" hreference
        |>.append (fitsAll_member "visibility" (.string n visibility.name))
        |>.append (fitsAll_member "kind" (.string n kind.name))
        |>.append (fitsAll_member "is_abstract" (.bool n isAbstract))
        |>.append (fitsAll_member "is_sealed" (.bool n isSealed))
        |>.append (fitsAll_optional_value "base_type" hbase)
        |>.append (fitsAll_list_inside "interfaces" hinterfaces)
  exact hrecord
    |>.and (within_required _ TypeRef.within_decoder)
    |>.and (within_anything _ _ _)
    |>.and (within_anything _ _ _)
    |>.and (within_flag _)
    |>.and (within_flag _)
    |>.and (Fields.within_optional _ TypeRef.within_decoder)
    |>.and (Fields.within_list _ TypeRef.within_decoder)

end TypeFacts

namespace TypeEntry

theorem reads {t : TypeEntry} (h : t.FloatFree) : Reads decoder t.toJson t := by
  have hcontents : contents.Writes (Json.list "generic_parameters" GenericFacts.toJson t.generics ++
      Json.list "members" MemberEntry.toJson t.members ++ Json.flag "dependency" t.isDependency)
      (t.generics, t.members, t.isDependency) :=
    writes_record (fun (generics : List GenericFacts) (members : List MemberEntry) (isDependency : Bool) =>
        (generics, members, isDependency))
      |>.and (writes_list fun g _ => g.reads) (by decide)
      |>.and (writes_list fun m hm => MemberEntry.reads (h m hm)) (by decide)
      |>.and (writes_flag "dependency" t.isDependency) (by decide)
  unfold toJson
  rw [List.append_assoc, List.append_assoc, ← List.append_assoc (Json.list "generic_parameters" _ _)]
  exact hcontents.reads_flattened t.facts.writes (by decide) _ _

theorem within_decoder : Json.Within decoder fun n t => t.FloatFree → Fits n t.toJson := by
  have hrecord : (Fields.record (fun generics members isDependency =>
      ((generics, members, isDependency) : List GenericFacts × List MemberEntry × Bool))).Within fun n y =>
      ∀ generics : List GenericFacts, (∀ g ∈ generics, ∃ m, n = m + 1 ∧ Fits m g.toJson) →
      ∀ members : List MemberEntry, (∀ e ∈ members, ∃ m, n = m + 1 ∧ (e.FloatFree → Fits m e.toJson)) →
      ∀ isDependency : Bool, True →
      (∀ e ∈ (y generics members isDependency).2.1, e.FloatFree) →
      FitsAll n (Json.list "generic_parameters" GenericFacts.toJson (y generics members isDependency).1 ++
        Json.list "members" MemberEntry.toJson (y generics members isDependency).2.1 ++
        Json.flag "dependency" (y generics members isDependency).2.2) :=
    within_record fun n generics hgenerics members hmembers isDependency _ hfree =>
      fitsAll_list_inside "generic_parameters" hgenerics
        |>.append (fitsAll_list_inside "members" fun e he => (hmembers e he).imp fun m hm => ⟨hm.1, hm.2 (hfree e he)⟩)
        |>.append (fitsAll_flag n "dependency" isDependency)
  have hcontents : contents.Within fun n c => (∀ e ∈ c.2.1, e.FloatFree) →
      FitsAll n (Json.list "generic_parameters" GenericFacts.toJson c.1 ++
        Json.list "members" MemberEntry.toJson c.2.1 ++ Json.flag "dependency" c.2.2) :=
    hrecord
      |>.and (Fields.within_list _ GenericFacts.within_decoder)
      |>.and (Fields.within_list _ MemberEntry.within_decoder)
      |>.and (within_flag _)
  refine (hcontents.flattened TypeFacts.within_fields _ _).imp ?_
  rintro n _ ⟨k, facts, c, rfl, rfl, hfacts, hc⟩ hfree
  unfold toJson
  rw [List.append_assoc, List.append_assoc, ← List.append_assoc (Json.list "generic_parameters" _ _)]
  exact .object (hfacts.append (hc hfree))

end TypeEntry

/-! ## Fact sets -/

namespace FactSet

/-- **A fact set is read back** from its value, however the value is laid out. -/
theorem reads {s : FactSet} (h : s.FloatFree) : Reads decoder s.toJson s := by
  refine Writes.reads_object ?_ _
  have htypes : (Fields.list "types" TypeEntry.decoder).Writes
      (member "types" (.array (s.entries.map TypeEntry.toJson))) s.entries := by
    change (field "types" (Decoder.list TypeEntry.decoder) (some [])).Writes _ _
    exact writes_field (reads_list fun t ht => TypeEntry.reads (h t ht))
  exact writes_record FactSet.mk
    |>.and (writes_required (reads_string s.identity)) (by decide)
    |>.and htypes (by decide)

/-- **A fact set that was read can be written where it stood**, with its list of types, which is written also when there are
none. -/
theorem within_decoder : Json.Within decoder fun n s => 1 < n → s.FloatFree → Fits n s.toJson := by
  have hrecord : (Fields.record FactSet.mk).Within fun n y =>
      ∀ identity : String, True →
      ∀ entries : List TypeEntry, (∀ t ∈ entries, ∃ m, n = m + 1 ∧ (t.FloatFree → Fits m t.toJson)) →
      1 < n + 1 → (y identity entries).FloatFree → Fits (n + 1) (y identity entries).toJson := by
    refine within_record fun n identity _ entries hentries hroom hfree => ?_
    obtain ⟨m, rfl⟩ : ∃ m, n = m + 1 := ⟨n - 1, by omega⟩
    have htypes : Fits (m + 1) (.array (entries.map TypeEntry.toJson)) := by
      refine .array fun item hitem => ?_
      obtain ⟨t, ht, rfl⟩ := List.mem_map.1 hitem
      obtain ⟨k, hk, hfits⟩ := hentries t ht
      exact Nat.succ.inj hk ▸ hfits (hfree t ht)
    exact .object (fitsAll_member "assembly_identity" (.string (m + 1) identity) |>.append (fitsAll_member "types" htypes))
  refine Within.inside ?_ _
  exact hrecord
    |>.and (within_anything _ _ _)
    |>.and (Fields.within_list _ TypeEntry.within_decoder)

end FactSet

end ApiSurface
