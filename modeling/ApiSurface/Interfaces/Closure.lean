/-
All interfaces of a type: those it declares, each followed by what that one extends, then those of its base types. The
lists of definitions are kept once computed. A definition that is being computed counts as having none, so a cycle of
declarations comes to an end.
-/
import ApiSurface.Facts.Set

namespace ApiSurface

/-- the interfaces of definitions, as far as they are known; the latest entry of a definition counts -/
abbrev Closures := List (TypeHandle × List TypeRef)

/-- a computation that looks up and keeps interface lists -/
abbrev Resolving (α : Type) := StateM Closures α

/-- references with names not among those seen; the first of each name stays -/
def TypeRef.distinctAfter : List String → List TypeRef → List TypeRef
  | _, [] => []
  | seen, r :: rest =>
    if seen.contains r.canonicalName then distinctAfter seen rest
    else r :: distinctAfter (r.canonicalName :: seen) rest

/-- references without those whose name came before -/
def TypeRef.distinct (rs : List TypeRef) : List TypeRef := distinctAfter [] rs

namespace FactSet

/-- the interfaces of the definition behind a reference, with the reference's arguments -/
def interfacesVia (s : FactSet) (closure : TypeHandle → Resolving (List TypeRef)) (r : TypeRef) :
    Resolving (List TypeRef) :=
  match s.resolve r with
  | none => pure []
  | some h => do
    let interfaces ← closure h
    return interfaces.map (TypeRef.substitute r.withoutByRef.arguments)

/-- all interfaces of a definition, through at most `depth` definitions -/
def closureWithin (s : FactSet) : (depth : Nat) → TypeHandle → Resolving (List TypeRef)
  | 0, _ => pure []
  | depth + 1, h => do
    match (← get).lookup h with
    | some known => return known
    | none =>
      modify fun known => (h, []) :: known
      match s.facts? h with
      | none => return []
      | some facts =>
        let declared ← facts.interfaces.mapM fun i => do
          let extended ← s.interfacesVia (closureWithin s depth) i
          return i :: extended
        let inherited ← match facts.kind, facts.baseType with
          | .interfaceType, _ => pure []
          | _, none => pure []
          | _, some base => s.interfacesVia (closureWithin s depth) base
        let result := TypeRef.distinct (declared.flatten ++ inherited)
        modify fun known => (h, result) :: known
        return result

/-- all interfaces of a definition; no definition comes twice on the way -/
def closure (s : FactSet) (h : TypeHandle) : Resolving (List TypeRef) := s.closureWithin (s.entries.length + 1) h

/-- all interfaces of a reference, in terms of its arguments; what cannot be resolved has none -/
def allInterfaces (s : FactSet) (r : TypeRef) : Resolving (List TypeRef) := s.interfacesVia s.closure r

/-- the interfaces that the definition behind a reference declares -/
def declaredInterfaces (s : FactSet) (r : TypeRef) : List TypeRef :=
  match s.definition? r with
  | none => []
  | some facts => facts.interfaces.map (TypeRef.substitute r.withoutByRef.arguments)

end FactSet

end ApiSurface
