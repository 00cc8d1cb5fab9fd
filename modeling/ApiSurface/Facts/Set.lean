/-
Fact sets: the types of a module and of what it depends on. Types are known by their place; a reference is resolved to
the first type with its definition key.
-/
import ApiSurface.Facts.Document
import ApiSurface.TypeRef.Name

namespace ApiSurface

open Json

structure FactSet where
  identity : String
  entries : List TypeEntry
deriving DecidableEq, Repr

namespace FactSet

/-! ## Building -/

/-- a module without types -/
def empty (identity : String) : FactSet := ⟨identity, []⟩

/-- add a type, which takes the next handle -/
def add (s : FactSet) (entry : TypeEntry) : FactSet × TypeHandle :=
  ({ s with entries := s.entries ++ [entry] }, ⟨s.entries.length⟩)

/-- add a type that is no part of the module -/
def addDependency (s : FactSet) (entry : TypeEntry) : FactSet × TypeHandle :=
  s.add { entry with isDependency := true }

/-! ## Looking up -/

def entry? (s : FactSet) (h : TypeHandle) : Option TypeEntry := s.entries[h.index]?

def facts? (s : FactSet) (h : TypeHandle) : Option TypeFacts := (s.entry? h).map TypeEntry.facts

def member? (s : FactSet) (h : MemberHandle) : Option MemberEntry :=
  (s.entry? h.owner).bind fun entry => entry.members[h.index]?

/-- the types of the module, in order -/
def moduleTypes (s : FactSet) : List TypeHandle :=
  s.entries.zipIdx.filterMap fun (entry, index) => if entry.isDependency then none else some ⟨index⟩

/-- the members of a type, in order -/
def membersOf (s : FactSet) (h : TypeHandle) : List MemberHandle :=
  ((s.entry? h).map fun entry => (List.range entry.members.length).map fun index => ⟨h, index⟩).getD []

/-- the first type with a definition key -/
def find? (s : FactSet) (key : String) : Option TypeHandle :=
  (s.entries.findIdx? fun entry => entry.facts.reference.definitionKey? == some key).map TypeHandle.mk

/-- the definition behind a reference, whatever its arguments -/
def resolve (s : FactSet) (r : TypeRef) : Option TypeHandle := r.withoutByRef.definitionKey?.bind s.find?

/-- the facts about the definition behind a reference -/
def definition? (s : FactSet) (r : TypeRef) : Option TypeFacts := (s.resolve r).bind s.facts?

/-! ## Interface slots -/

/-- the members of a type that implement the interface of a name, with the type's parameters replaced by arguments -/
def ownSlots (h : TypeHandle) (entry : TypeEntry) (arguments : List TypeRef) (name : String) : List InterfaceSlot :=
  entry.members.zipIdx.filterMap fun (m, index) =>
    if (m.facts.explicitInterface.toList ++ m.facts.implements).any fun i =>
        (i.substitute arguments).canonicalName == name then
      some ⟨m.facts.name, ⟨h, index⟩⟩
    else none

/-- the slots of the nearest type that has any, from a type up its base types, in at most `steps` steps -/
def slotsFrom (s : FactSet) (name : String) : (steps : Nat) → List TypeHandle → TypeHandle → List TypeRef →
    List InterfaceSlot
  | 0, _, _, _ => []
  | steps + 1, visited, h, arguments =>
    if visited.contains h then []
    else
      match s.entry? h with
      | none => []
      | some entry =>
        match ownSlots h entry arguments name with
        | [] =>
          match entry.facts.baseType with
          | none => []
          | some base =>
            let base := base.substitute arguments
            match s.resolve base with
            | none => []
            | some next => slotsFrom s name steps (h :: visited) next base.arguments
        | slots => slots

/-- which members of a type, or of the nearest base type that has any, implement an interface; no type is visited
twice -/
def interfaceMap (s : FactSet) (h : TypeHandle) (interface : TypeRef) : List InterfaceSlot :=
  s.slotsFrom interface.canonicalName (s.entries.length + 1) [] h []

/-! ## Documents -/

def toJson (s : FactSet) : Json :=
  .object (member "assembly_identity" (.string s.identity) ++
    member "types" (.array (s.entries.map TypeEntry.toJson)))

def fields : Fields FactSet :=
  Fields.record FactSet.mk
    |>.and (Fields.required "assembly_identity" Decoder.string)
    |>.and (Fields.list "types" TypeEntry.decoder)

def decoder : Decoder FactSet := fields.decoder "struct FactDocument"

def load (text : String) : Outcome FactSet := Json.read decoder text

end FactSet

end ApiSurface
