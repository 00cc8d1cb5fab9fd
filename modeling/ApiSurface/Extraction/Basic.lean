/-
Extraction: the listing of a module from its symbol facts. Modifiers are normalised, interfaces reduced to those that a
type adds, and types and members sorted by Id. A name that a compiler invented ends the extraction, as it could not be
matched in another listing.
-/
import ApiSurface.Extraction.Exported
import ApiSurface.Interfaces.Direct
import ApiSurface.Listing.Basic

namespace ApiSurface

/-! ## Failures -/

/-- what has a name that a compiler invented -/
inductive Construct where
  | type
  | member
  | genericParameter
deriving DecidableEq, Repr

/-- the construct as messages name it -/
def Construct.word : Construct → String
  | .type => "type"
  | .member => "member"
  | .genericParameter => "generic parameter"

/-- why there is no listing -/
inductive ExtractionFault where
  | unnamed (construct : Construct) (name context : String)
  | unknownType (handle : TypeHandle)
  | duplicateType (name : String)
deriving DecidableEq, Repr

def ExtractionFault.message : ExtractionFault → String
  | .unnamed construct name context =>
    "cannot assign a deterministic Id to " ++ construct.word ++ " `" ++ name ++ "` (in " ++ context ++ ")"
  | .unknownType handle => "metadata provider has no facts for type handle " ++ handle.display
  | .duplicateType name => "duplicate type name `" ++ name ++ "` in listing"

/-- a computation that may fail and keeps interface lists -/
abbrev Extracting (α : Type) := StateT Closures (Except ExtractionFault) α

/-- a computation that cannot fail -/
def Extracting.ofResolving {α : Type} (m : Resolving α) : Extracting α := fun known => .ok (m.run known)

/-! ## Names -/

/-- refuse a name that a compiler invented -/
def requireName (construct : Construct) (name context : String) : Except ExtractionFault Unit :=
  if TypeRef.isSynthesizedName name then .error (.unnamed construct name context) else .ok ()

/-- the names of a type and of its declaring types -/
def requireTypeNames : TypeRef → Except ExtractionFault Unit
  | .named ns name none arguments =>
    requireName .type name ((TypeRef.named ns name none arguments).outerNamespace.getD "global namespace")
  | .named ns name (some declaring) arguments => do
    requireName .type name
      ((TypeRef.named ns name (some declaring) arguments).outerNamespace.getD "global namespace")
    requireTypeNames declaring
  | _ => .ok ()

/-! ## Generic parameters and parameters -/

namespace FactSet

/-- the bounds to list for a generic parameter of something; a struct has a parameterless constructor anyway -/
def describeGeneric (s : FactSet) (f : VisibilityFilter) (context : String) (g : GenericFacts) :
    Extracting Bounds := do
  requireName .genericParameter g.name context
  let bases ← Extracting.ofResolving (s.constraintSet (s.isVisible f) g)
  return ⟨g.defaultConstructor && !g.valueType, g.referenceType, g.valueType, bases.map TypeRef.canonicalName⟩

def directionOf (p : ParameterFacts) : Direction :=
  if p.type.isByRef then (if p.isOut then .output else .reference) else .input

/-- a parameter at a position; one without a name gets one -/
def describeParameter (p : ParameterFacts) (position : Nat) : ParameterDescriptor where
  name := if p.name.isEmpty then "arg" ++ position.repr else p.name
  type := p.type.canonicalName
  direction := directionOf p
  default := p.default.map Literal.render
  isParams := p.isParams

/-! ## Members -/

/-- the field that holds the value of an enumeration -/
def enumValueField : String := "value__"

/-- a member of a type of some kind belongs to the listing: an explicit implementation by its interface, any other by
its visibility, and the field of an enumeration that holds the value never -/
def keepsMember (s : FactSet) (f : VisibilityFilter) (owner : TypeKind) (m : MemberFacts) : Bool :=
  (match m.explicitInterface with
    | some i => s.isVisible f i
    | none => f.keeps m.visibility) &&
  !(owner == .enumType && m.kind == .field && m.name == enumValueField)

/-- a method's name with its generic parameters -/
def methodName (name : String) (generics : List GenericFacts) : String :=
  name ++ TypeRef.angled (generics.map GenericFacts.name)

/-- the first of a type's interfaces that a member implements without naming it -/
def implementedInterface (s : FactSet) (interfaces : List TypeRef) (h : MemberHandle) : Option TypeRef :=
  interfaces.find? fun i => (s.interfaceMap h.owner i).any fun slot => slot.implementation == h

/-- the constraints of a method's generic parameters, those without bounds left out -/
def describeConstraints (s : FactSet) (f : VisibilityFilter) (context : String) (generics : List GenericFacts) :
    Extracting (List GenericConstraint) := do
  let all ← generics.mapM fun g => do
    let bounds ← s.describeGeneric f context g
    return (⟨g.position, bounds⟩ : GenericConstraint)
  return all.filter fun c => c.bounds.any

/-- a member that is kept -/
def describeMember (s : FactSet) (f : VisibilityFilter) (owner : TypeKind) (context : String)
    (interfaces : List TypeRef) (h : MemberHandle) (entry : MemberEntry) : Extracting MemberDescriptor := do
  let m := entry.facts
  requireName .member m.name context
  let constraints ← s.describeConstraints f context entry.generics
  let inInterface := owner == .interfaceType
  let isOverride := !inInterface && m.isVirtual && !m.isNewSlot
  let isField := m.kind == .field
  let explicit := m.explicitInterface.isSome
  return {
    kind := m.kind
    name := methodName m.name entry.generics
    parameters := entry.parameters.zipIdx.map fun (p, position) => describeParameter p position
    returnType := if m.kind == .constructor then none else m.returnType.map TypeRef.canonicalName
    isSealed := m.isFinal && isOverride
    isStatic := m.isStatic
    isVirtual := !inInterface && m.isVirtual && !m.isAbstract && !m.isFinal && !isOverride
    isOverride := isOverride
    isAbstract := !inInterface && m.isAbstract
    isNew := m.hidesBase
    isExtension := m.isExtension
    isReadOnly := isField && m.isInitOnly
    explicitInterface := m.explicitInterface.map TypeRef.canonicalName
    implementedInterface :=
      if explicit then none else (s.implementedInterface interfaces h).map TypeRef.canonicalName
    visibility := if explicit then none else some m.visibility
    constraints := constraints
    isConstant := isField && m.literal.isSome
    literal := if isField then m.literal.map Literal.render else none }

/-- the members of a type that are kept, in order; a handle without facts is passed over -/
def describeMembers (s : FactSet) (f : VisibilityFilter) (owner : TypeKind) (context : String)
    (interfaces : List TypeRef) : List MemberHandle → Extracting (List MemberDescriptor)
  | [] => pure []
  | h :: rest =>
    match s.member? h with
    | none => describeMembers s f owner context interfaces rest
    | some entry =>
      if s.keepsMember f owner entry.facts then do
        let m ← s.describeMember f owner context interfaces h entry
        let others ← describeMembers s f owner context interfaces rest
        return m :: others
      else describeMembers s f owner context interfaces rest

/-! ## Types -/

/-- the root of every class hierarchy, which is no base type worth listing -/
def objectName : String := "System.Object"

/-- the number of generic parameters that belong to the declaring types -/
def enclosingArity (r : TypeRef) : UInt64 :=
  match r.declaring? with
  | some declaring => declaring.totalArity
  | none => 0

/-- an exported type with the given members -/
def describeType (s : FactSet) (f : VisibilityFilter) (h : TypeHandle) (entry : TypeEntry)
    (members : List MemberHandle) : Extracting TypeDescriptor := do
  let t := entry.facts
  requireTypeNames t.reference
  let name := t.reference.canonicalName
  let interfaces ← Extracting.ofResolving (s.directInterfaces (s.isVisible f) h)
  let own := entry.generics.filter fun g => decide (enclosingArity t.reference ≤ g.position)
  let generics ← own.mapM fun g => do
    let bounds ← s.describeGeneric f name g
    return (⟨g.name, bounds⟩ : GenericParameter)
  let described ← s.describeMembers f t.kind name interfaces members
  let isClass := t.kind == .classType
  let isStatic := isClass && t.isAbstract && t.isSealed
  return {
    name := name
    visibility := t.visibility
    kind := t.kind
    isAbstract := !isStatic && isClass && t.isAbstract
    isStatic := isStatic
    isSealed := !isStatic && isClass && t.isSealed
    baseType := if isClass then (t.baseType.map TypeRef.canonicalName).filter (· != objectName) else none
    interfaces := interfaces.map TypeRef.canonicalName
    genericParameters := generics
    members := Listing.sortMembers described }

/-! ## The module -/

/-- which types an extraction walks, and which members of each -/
structure Roster where
  types : List TypeHandle
  members : TypeHandle → List MemberHandle

/-- the types of the module with all their members -/
def roster (s : FactSet) : Roster := ⟨s.moduleTypes, s.membersOf⟩

/-- the exported types among those of a roster, in order; the names of those before must not come again -/
def describeTypes (s : FactSet) (f : VisibilityFilter) (members : TypeHandle → List MemberHandle) :
    List String → List TypeHandle → Extracting (List TypeDescriptor)
  | _, [] => pure []
  | names, h :: rest =>
    match s.entry? h with
    | none => throw (.unknownType h)
    | some entry =>
      if s.isExported f entry.facts then do
        let t ← s.describeType f h entry (members h)
        if names.contains t.name then throw (.duplicateType t.name)
        let others ← describeTypes s f members (t.name :: names) rest
        return t :: others
      else describeTypes s f members names rest

/-- the listing of the types of a roster -/
def extractRoster (s : FactSet) (f : VisibilityFilter) (roster : Roster) : Except ExtractionFault Listing := do
  let (types, _) ← (s.describeTypes f roster.members [] roster.types).run []
  return ⟨s.identity, Listing.sortTypes types⟩

def extract (s : FactSet) (f : VisibilityFilter) : Except ExtractionFault Listing := s.extractRoster f s.roster

end FactSet

end ApiSurface
