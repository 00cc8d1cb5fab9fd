/-
Symbol facts in documents. The facts about a type or member share one object with its contents.
-/
import ApiSurface.Facts.Basic
import ApiSurface.TypeRef.Document

namespace ApiSurface

open Json

/-! ## Parameters -/

namespace ParameterFacts

def toJson (p : ParameterFacts) : Json :=
  .object (member "name" (.string p.name) ++ member "type" p.type.toJson ++ member "is_out" (.bool p.isOut) ++
    Json.optional "default_value" Literal.toJson p.default ++ member "is_params" (.bool p.isParams))

def fields : Fields ParameterFacts :=
  Fields.record ParameterFacts.mk
    |>.and (Fields.required "name" Decoder.string)
    |>.and (Fields.required "type" TypeRef.decoder)
    |>.and (Fields.flag "is_out")
    |>.and (Fields.optional "default_value" Literal.decoder)
    |>.and (Fields.flag "is_params")

def decoder : Decoder ParameterFacts := fields.decoder "struct ParameterFacts"

end ParameterFacts

namespace GenericFacts

def toJson (g : GenericFacts) : Json :=
  .object (member "name" (.string g.name) ++ member "position" (.nat g.position.toNat) ++
    member "default_constructor" (.bool g.defaultConstructor) ++ member "reference_type" (.bool g.referenceType) ++
    member "value_type" (.bool g.valueType) ++ Json.list "constraints" TypeRef.toJson g.constraints)

def fields : Fields GenericFacts :=
  Fields.record GenericFacts.mk
    |>.and (Fields.required "name" Decoder.string)
    |>.and (Fields.required "position" (Decoder.word64 "usize"))
    |>.and (Fields.flag "default_constructor")
    |>.and (Fields.flag "reference_type")
    |>.and (Fields.flag "value_type")
    |>.and (Fields.list "constraints" TypeRef.decoder)

def decoder : Decoder GenericFacts := fields.decoder "struct GenericParameterFacts"

end GenericFacts

/-! ## Members -/

namespace MemberFacts

def members (m : MemberFacts) : Members :=
  member "kind" m.kind.toJson ++ member "name" (.string m.name) ++ member "visibility" m.visibility.toJson ++
    Json.optional "return_type" TypeRef.toJson m.returnType ++ member "is_static" (.bool m.isStatic) ++
    member "is_virtual" (.bool m.isVirtual) ++ member "is_abstract" (.bool m.isAbstract) ++
    member "is_final" (.bool m.isFinal) ++ member "is_new_slot" (.bool m.isNewSlot) ++
    member "hides_base" (.bool m.hidesBase) ++ member "is_extension" (.bool m.isExtension) ++
    member "is_init_only" (.bool m.isInitOnly) ++ Json.optional "literal" Literal.toJson m.literal ++
    Json.optional "explicit_interface" TypeRef.toJson m.explicitInterface ++
    Json.list "implements" TypeRef.toJson m.implements

def fields : Fields MemberFacts :=
  Fields.record MemberFacts.mk
    |>.and (Fields.required "kind" MemberKind.decoder)
    |>.and (Fields.required "name" Decoder.string)
    |>.and (Fields.required "visibility" Visibility.decoder)
    |>.and (Fields.optional "return_type" TypeRef.decoder)
    |>.and (Fields.flag "is_static")
    |>.and (Fields.flag "is_virtual")
    |>.and (Fields.flag "is_abstract")
    |>.and (Fields.flag "is_final")
    |>.and (Fields.flag "is_new_slot")
    |>.and (Fields.flag "hides_base")
    |>.and (Fields.flag "is_extension")
    |>.and (Fields.flag "is_init_only")
    |>.and (Fields.optional "literal" Literal.decoder)
    |>.and (Fields.optional "explicit_interface" TypeRef.decoder)
    |>.and (Fields.list "implements" TypeRef.decoder)

end MemberFacts

namespace MemberEntry

def toJson (m : MemberEntry) : Json :=
  .object (m.facts.members ++ Json.list "parameters" ParameterFacts.toJson m.parameters ++
    Json.list "generic_parameters" GenericFacts.toJson m.generics)

def contents : Fields (List ParameterFacts × List GenericFacts) :=
  Fields.record Prod.mk
    |>.and (Fields.list "parameters" ParameterFacts.decoder)
    |>.and (Fields.list "generic_parameters" GenericFacts.decoder)

def decoder : Decoder MemberEntry :=
  contents.flattened MemberFacts.fields (fun facts contents => ⟨facts, contents.1, contents.2⟩) "struct MemberEntry"

end MemberEntry

/-! ## Types -/

namespace TypeFacts

def members (t : TypeFacts) : Members :=
  member "reference" t.reference.toJson ++ member "visibility" t.visibility.toJson ++
    member "kind" t.kind.toJson ++ member "is_abstract" (.bool t.isAbstract) ++
    member "is_sealed" (.bool t.isSealed) ++ Json.optional "base_type" TypeRef.toJson t.baseType ++
    Json.list "interfaces" TypeRef.toJson t.interfaces

def fields : Fields TypeFacts :=
  Fields.record TypeFacts.mk
    |>.and (Fields.required "reference" TypeRef.decoder)
    |>.and (Fields.required "visibility" Visibility.decoder)
    |>.and (Fields.required "kind" TypeKind.decoder)
    |>.and (Fields.flag "is_abstract")
    |>.and (Fields.flag "is_sealed")
    |>.and (Fields.optional "base_type" TypeRef.decoder)
    |>.and (Fields.list "interfaces" TypeRef.decoder)

end TypeFacts

namespace TypeEntry

def toJson (t : TypeEntry) : Json :=
  .object (t.facts.members ++ Json.list "generic_parameters" GenericFacts.toJson t.generics ++
    Json.list "members" MemberEntry.toJson t.members ++ Json.flag "dependency" t.isDependency)

def contents : Fields (List GenericFacts × List MemberEntry × Bool) :=
  Fields.record (fun generics members isDependency => (generics, members, isDependency))
    |>.and (Fields.list "generic_parameters" GenericFacts.decoder)
    |>.and (Fields.list "members" MemberEntry.decoder)
    |>.and (Fields.flag "dependency")

def decoder : Decoder TypeEntry :=
  contents.flattened TypeFacts.fields (fun facts contents => ⟨facts, contents.1, contents.2.1, contents.2.2⟩)
    "struct TypeEntry"

end TypeEntry

end ApiSurface
