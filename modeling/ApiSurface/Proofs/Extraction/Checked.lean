/-
Extraction with an eye on overflows.

Every function that puts names together is written down here once more in the order of its steps, with names and arities
that fail where an addition overflows or a slice is out of range. What such a function does otherwise is what it always does.

`Checked.extract`: the whole extraction, which has no result after an overflow.
-/
import ApiSurface.Extraction.Basic
import ApiSurface.Proofs.TypeRef.Counting

namespace ApiSurface

/-- a computation that also ends at an overflow -/
abbrev Checking (α : Type) := StateT Closures (ExceptT ExtractionFault Option) α

namespace Checked

open TypeRef (checkedName)

/-! ## Lists of references -/

/-- the elements that are kept, unless an answer overflows -/
def keep {α : Type} (keeps : α → Option Bool) : List α → Option (List α)
  | [] => some []
  | x :: rest => do
    let kept ← keeps x
    let others ← keep keeps rest
    return if kept then x :: others else others

def names (rs : List TypeRef) : Option (List String) := rs.mapM checkedName

/-- the name of a reference that there may not be -/
def name? : Option TypeRef → Option (Option String)
  | none => some none
  | some r => (checkedName r).map some

def distinctAfter : List String → List TypeRef → Option (List TypeRef)
  | _, [] => some []
  | seen, r :: rest => do
    let name ← checkedName r
    if seen.contains name then distinctAfter seen rest
    else
      let others ← distinctAfter (name :: seen) rest
      return r :: others

def distinct (rs : List TypeRef) : Option (List TypeRef) := distinctAfter [] rs

def withoutImplied (all : List TypeRef) (reach : List (List TypeRef)) : Option (List TypeRef) := do
  let names ← Checked.names all
  let reached ← reach.mapM Checked.names
  keep (fun r => do
    let name ← checkedName r
    return !((names.zip reached).any fun (other, brought) => other != name && brought.contains name)) all

/-! ## Slots -/

/-- a member implements the interface of a name, with the type's parameters replaced by arguments -/
def implements (arguments : List TypeRef) (name : String) (m : MemberFacts) : Option Bool := do
  let names ← Checked.names ((m.explicitInterface.toList ++ m.implements).map (TypeRef.substitute arguments))
  return names.any (· == name)

def ownSlots (h : TypeHandle) (entry : TypeEntry) (arguments : List TypeRef) (name : String) :
    Option (List InterfaceSlot) := do
  let slots ← entry.members.zipIdx.mapM fun (m, index) => do
    let own ← implements arguments name m.facts
    return if own then some ⟨m.facts.name, ⟨h, index⟩⟩ else none
  return slots.filterMap id

def slotsFrom (s : FactSet) (name : String) : (steps : Nat) → List TypeHandle → TypeHandle → List TypeRef →
    Option (List InterfaceSlot)
  | 0, _, _, _ => some []
  | steps + 1, visited, h, arguments =>
    if visited.contains h then some []
    else
      match s.entry? h with
      | none => some []
      | some entry => do
        match ← ownSlots h entry arguments name with
        | [] =>
          match entry.facts.baseType with
          | none => some []
          | some base =>
            let base := base.substitute arguments
            match s.resolve base with
            | none => some []
            | some next => slotsFrom s name steps (h :: visited) next base.arguments
        | slots => some slots

def interfaceMap (s : FactSet) (h : TypeHandle) (interface : TypeRef) : Option (List InterfaceSlot) := do
  let name ← checkedName interface
  slotsFrom s name (s.entries.length + 1) [] h []

/-! ## Interfaces -/

def interfacesVia (s : FactSet) (closure : TypeHandle → Checking (List TypeRef)) (r : TypeRef) :
    Checking (List TypeRef) :=
  match s.resolve r with
  | none => pure []
  | some h => do
    let interfaces ← closure h
    return interfaces.map (TypeRef.substitute r.withoutByRef.arguments)

def closureWithin (s : FactSet) : (depth : Nat) → TypeHandle → Checking (List TypeRef)
  | 0, _ => pure []
  | depth + 1, h => do
    match (← get).lookup h with
    | some known => return known
    | none =>
      modify fun known => (h, []) :: known
      match s.facts? h with
      | none => return []
      | some facts =>
        let declared ← facts.interfaces.mapM fun i => do
          let extended ← interfacesVia s (closureWithin s depth) i
          return i :: extended
        let inherited ← match facts.kind, facts.baseType with
          | .interfaceType, _ => pure []
          | _, none => pure []
          | _, some base => interfacesVia s (closureWithin s depth) base
        let result ← distinct (declared.flatten ++ inherited)
        modify fun known => (h, result) :: known
        return result

def closure (s : FactSet) (h : TypeHandle) : Checking (List TypeRef) := closureWithin s (s.entries.length + 1) h

def allInterfaces (s : FactSet) (r : TypeRef) : Checking (List TypeRef) := interfacesVia s (closure s) r

def directInterfaces (s : FactSet) (visible : TypeRef → Bool) (h : TypeHandle) : Checking (List TypeRef) :=
  match s.facts? h with
  | none => pure []
  | some facts => do
    let all := (← closure s h).filter visible
    match facts.kind with
    | .interfaceType =>
      let reach ← all.mapM (allInterfaces s)
      withoutImplied all reach
    | _ =>
      let inherited ← match facts.baseType with
        | none => pure []
        | some base => allInterfaces s base
      let names ← Checked.names inherited
      keep (fun i => do
        let name ← checkedName i
        let slots ← interfaceMap s h i
        return !names.contains name || slots.any fun slot => slot.implementation.owner == h) all

/-! ## Constraints -/

def partConstraints (s : FactSet) (visible : TypeRef → Bool) (valueType : Bool) :
    Option TypeRef → List TypeRef → Checking (Option TypeRef × List TypeRef)
  | bound, [] => pure (bound, [])
  | bound, c :: rest => do
    let name ← checkedName c
    if valueType && name == FactSet.valueTypeName then partConstraints s visible valueType bound rest
    else if bound.isNone && s.isClass c then partConstraints s visible valueType (some c) rest
    else do
      let shown ← if visible c then pure [c] else List.filter visible <$> allInterfaces s c
      let (bound, others) ← partConstraints s visible valueType bound rest
      return (bound, shown ++ others)

def constraintSet (s : FactSet) (visible : TypeRef → Bool) (parameter : GenericFacts) : Checking (List TypeRef) := do
  let (bound, all) ← partConstraints s visible parameter.valueType none parameter.constraints
  let interfaces ← distinct all
  let inherited ← match bound with
    | none => pure []
    | some base => allInterfaces s base
  let names ← Checked.names inherited
  let stated ← withoutImplied interfaces (interfaces.map s.declaredInterfaces)
  let kept ← keep (fun i => do
    let name ← checkedName i
    return !names.contains name) stated
  return bound.toList ++ kept

/-! ## Members -/

def describeGeneric (s : FactSet) (f : VisibilityFilter) (context : String) (g : GenericFacts) : Checking Bounds := do
  requireName .genericParameter g.name context
  let bases ← constraintSet s (s.isVisible f) g
  let names ← names bases
  return ⟨g.defaultConstructor && !g.valueType, g.referenceType, g.valueType, names⟩

def describeParameter (p : ParameterFacts) (position : Nat) : Option ParameterDescriptor := do
  let type ← checkedName p.type
  return { FactSet.describeParameter p position with type := type }

def describeParameters (parameters : List ParameterFacts) : Option (List ParameterDescriptor) :=
  parameters.zipIdx.mapM fun (p, position) => describeParameter p position

def implementedInterface (s : FactSet) (interfaces : List TypeRef) (h : MemberHandle) : Option (Option TypeRef) := do
  let implemented ← keep (fun i => do
    let slots ← interfaceMap s h.owner i
    return slots.any fun slot => slot.implementation == h) interfaces
  return implemented.head?

def implementedName (s : FactSet) (interfaces : List TypeRef) (h : MemberHandle) (m : MemberFacts) :
    Option (Option String) :=
  if m.explicitInterface.isSome then some none
  else do
    let implemented ← implementedInterface s interfaces h
    name? implemented

def describeConstraints (s : FactSet) (f : VisibilityFilter) (context : String) (generics : List GenericFacts) :
    Checking (List GenericConstraint) := do
  let all ← generics.mapM fun g => do
    let bounds ← describeGeneric s f context g
    return (⟨g.position, bounds⟩ : GenericConstraint)
  return all.filter fun c => c.bounds.any

def describeMember (s : FactSet) (f : VisibilityFilter) (owner : TypeKind) (context : String)
    (interfaces : List TypeRef) (h : MemberHandle) (entry : MemberEntry) : Checking MemberDescriptor := do
  let m := entry.facts
  requireName .member m.name context
  let constraints ← describeConstraints s f context entry.generics
  let parameters ← describeParameters entry.parameters
  let returnType ← name? (if m.kind == .constructor then none else m.returnType)
  let explicitInterface ← name? m.explicitInterface
  let implementedInterface ← implementedName s interfaces h m
  let inInterface := owner == .interfaceType
  let isOverride := !inInterface && m.isVirtual && !m.isNewSlot
  let isField := m.kind == .field
  return {
    kind := m.kind
    name := FactSet.methodName m.name entry.generics
    parameters := parameters
    returnType := returnType
    isSealed := m.isFinal && isOverride
    isStatic := m.isStatic
    isVirtual := !inInterface && m.isVirtual && !m.isAbstract && !m.isFinal && !isOverride
    isOverride := isOverride
    isAbstract := !inInterface && m.isAbstract
    isNew := m.hidesBase
    isExtension := m.isExtension
    isReadOnly := isField && m.isInitOnly
    explicitInterface := explicitInterface
    implementedInterface := implementedInterface
    visibility := if m.explicitInterface.isSome then none else some m.visibility
    constraints := constraints
    isConstant := isField && m.literal.isSome
    literal := if isField then m.literal.map Literal.render else none }

def describeMembers (s : FactSet) (f : VisibilityFilter) (owner : TypeKind) (context : String)
    (interfaces : List TypeRef) : List MemberHandle → Checking (List MemberDescriptor)
  | [] => pure []
  | h :: rest =>
    match s.member? h with
    | none => describeMembers s f owner context interfaces rest
    | some entry =>
      if s.keepsMember f owner entry.facts then do
        let m ← describeMember s f owner context interfaces h entry
        let others ← describeMembers s f owner context interfaces rest
        return m :: others
      else describeMembers s f owner context interfaces rest

/-! ## Types -/

def enclosingArity (r : TypeRef) : Option UInt64 :=
  match r.declaring? with
  | some declaring => declaring.checkedArity
  | none => some 0

def describeType (s : FactSet) (f : VisibilityFilter) (h : TypeHandle) (entry : TypeEntry)
    (members : List MemberHandle) : Checking TypeDescriptor := do
  let t := entry.facts
  requireTypeNames t.reference
  let name ← checkedName t.reference
  let interfaces ← directInterfaces s (s.isVisible f) h
  let interfaceNames ← names interfaces
  let enclosing ← enclosingArity t.reference
  let generics ← (entry.generics.filter fun g => decide (enclosing ≤ g.position)).mapM fun g => do
    let bounds ← describeGeneric s f name g
    return (⟨g.name, bounds⟩ : GenericParameter)
  let described ← describeMembers s f t.kind name interfaces members
  let isClass := t.kind == .classType
  let isStatic := isClass && t.isAbstract && t.isSealed
  let baseType ← name? (if isClass then t.baseType else none)
  return {
    name := name
    visibility := t.visibility
    kind := t.kind
    isAbstract := !isStatic && isClass && t.isAbstract
    isStatic := isStatic
    isSealed := !isStatic && isClass && t.isSealed
    baseType := baseType.filter (· != FactSet.objectName)
    interfaces := interfaceNames
    genericParameters := generics
    members := Listing.sortMembers described }

/-! ## The module -/

def describeTypes (s : FactSet) (f : VisibilityFilter) (members : TypeHandle → List MemberHandle) :
    List String → List TypeHandle → Checking (List TypeDescriptor)
  | _, [] => pure []
  | names, h :: rest =>
    match s.entry? h with
    | none => throw (.unknownType h)
    | some entry =>
      if s.isExported f entry.facts then do
        let t ← describeType s f h entry (members h)
        if names.contains t.name then throw (.duplicateType t.name)
        let others ← describeTypes s f members (t.name :: names) rest
        return t :: others
      else describeTypes s f members names rest

/-- the listing of a module or the fault that ends its extraction; neither after an overflow -/
def extract (s : FactSet) (f : VisibilityFilter) : Option (Except ExtractionFault Listing) := ExceptT.run do
  let (types, _) ← (describeTypes s f s.roster.members [] s.roster.types).run []
  return ⟨s.identity, Listing.sortTypes types⟩

end Checked

end ApiSurface
