/-
The interfaces that a listing records. An interface is left out when the base type or another recorded one already
brings it in, and hidden ones are replaced by the visible ones they extend, before anything is left out.
-/
import ApiSurface.Interfaces.Closure

namespace ApiSurface.FactSet

/-! ## Types -/

/-- references that no reference of another name brings in -/
def withoutImplied (all : List TypeRef) (reach : List (List TypeRef)) : List TypeRef :=
  let names := all.map TypeRef.canonicalName
  let reached := reach.map fun rs => rs.map TypeRef.canonicalName
  all.filter fun r =>
    let name := r.canonicalName
    !((names.zip reached).any fun (other, brought) => other != name && brought.contains name)

/-- the interfaces to record on a type, in order: an interface drops what another one extends; any other type drops what
its base type has, unless a member of its own implements it anew -/
def directInterfaces (s : FactSet) (visible : TypeRef → Bool) (h : TypeHandle) : Resolving (List TypeRef) :=
  match s.facts? h with
  | none => pure []
  | some facts => do
    let all := (← s.closure h).filter visible
    match facts.kind with
    | .interfaceType =>
      let reach ← all.mapM s.allInterfaces
      return withoutImplied all reach
    | _ =>
      let inherited ← match facts.baseType with
        | none => pure []
        | some base => s.allInterfaces base
      let names := inherited.map TypeRef.canonicalName
      return all.filter fun i =>
        !names.contains i.canonicalName ||
          (s.interfaceMap h i).any fun slot => slot.implementation.owner == h

/-! ## Constraints -/

/-- the class bound that a struct constraint implies -/
def valueTypeName : String := "System.ValueType"

/-- the reference is known to be no interface -/
def isClass (s : FactSet) (r : TypeRef) : Bool :=
  match s.definition? r with
  | none => false
  | some facts => facts.kind != .interfaceType

/-- part constraints into the class bound and the interfaces; a hidden interface stands for the visible ones it
extends -/
def partConstraints (s : FactSet) (visible : TypeRef → Bool) (valueType : Bool) :
    Option TypeRef → List TypeRef → Resolving (Option TypeRef × List TypeRef)
  | bound, [] => pure (bound, [])
  | bound, c :: rest =>
    if valueType && c.canonicalName == valueTypeName then partConstraints s visible valueType bound rest
    else if bound.isNone && s.isClass c then partConstraints s visible valueType (some c) rest
    else do
      let shown ← if visible c then pure [c] else List.filter visible <$> s.allInterfaces c
      let (bound, others) ← partConstraints s visible valueType bound rest
      return (bound, shown ++ others)

/-- the bounds to record for a generic parameter: the class bound, then the interfaces that neither it nor the
declaration of another one brings in -/
def constraintSet (s : FactSet) (visible : TypeRef → Bool) (parameter : GenericFacts) : Resolving (List TypeRef) := do
  let (bound, all) ← s.partConstraints visible parameter.valueType none parameter.constraints
  let interfaces := TypeRef.distinct all
  let inherited ← match bound with
    | none => pure []
    | some base => s.allInterfaces base
  let names := inherited.map TypeRef.canonicalName
  let kept := (withoutImplied interfaces (interfaces.map s.declaredInterfaces)).filter fun i =>
    !names.contains i.canonicalName
  return bound.toList ++ kept

end ApiSurface.FactSet
