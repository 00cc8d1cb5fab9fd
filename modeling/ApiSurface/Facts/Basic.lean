/-
Symbol facts: what metadata says about types, members, parameters and generic parameters, before anything is left out or
normalised. Types and members are known by their numbers, which have no bound: a set of 2^32 types or more, or a type with
as many members, whose numbers would not fit into 32-bit words, is left out.
-/
import ApiSurface.Descriptor.Vocabulary
import ApiSurface.Literal
import ApiSurface.TypeRef.Basic

namespace ApiSurface

structure TypeFacts where
  /-- the type itself; a generic definition has its own parameters as arguments -/
  reference : TypeRef
  visibility : Visibility
  kind : TypeKind
  isAbstract : Bool
  isSealed : Bool
  baseType : Option TypeRef
  /-- the interfaces that the declaration names, in order -/
  interfaces : List TypeRef
deriving DecidableEq, Repr

structure MemberFacts where
  kind : MemberKind
  /-- an explicit implementation has the name of the interface's member -/
  name : String
  visibility : Visibility
  /-- of a method, or the type of a field -/
  returnType : Option TypeRef
  isStatic : Bool
  isVirtual : Bool
  isAbstract : Bool
  /-- cannot be overridden further -/
  isFinal : Bool
  /-- begins a new slot instead of overriding -/
  isNewSlot : Bool
  hidesBase : Bool
  isExtension : Bool
  isInitOnly : Bool
  literal : Option Literal
  /-- the interface of an explicit implementation -/
  explicitInterface : Option TypeRef
  /-- the interfaces that the member implements without naming them -/
  implements : List TypeRef
deriving DecidableEq, Repr

structure ParameterFacts where
  name : String
  /-- a managed reference for parameters that are not passed by value -/
  type : TypeRef
  isOut : Bool
  default : Option Literal
  isParams : Bool
deriving DecidableEq, Repr

structure GenericFacts where
  name : String
  position : UInt64
  /-- the argument has a parameterless constructor -/
  defaultConstructor : Bool
  referenceType : Bool
  valueType : Bool
  constraints : List TypeRef
deriving DecidableEq, Repr

structure MemberEntry where
  facts : MemberFacts
  parameters : List ParameterFacts
  generics : List GenericFacts
deriving DecidableEq, Repr

/-- a type with its generic parameters and members -/
structure TypeEntry where
  facts : TypeFacts
  /-- those of the declaring types come first -/
  generics : List GenericFacts
  members : List MemberEntry
  /-- known, but no part of the module -/
  isDependency : Bool
deriving DecidableEq, Repr

/-- the number of a type among those known -/
structure TypeHandle where
  index : Nat
deriving DecidableEq, Repr

/-- the handle as messages show it -/
def TypeHandle.display (h : TypeHandle) : String := "#" ++ h.index.repr

/-- the number of a member within its type -/
structure MemberHandle where
  owner : TypeHandle
  index : Nat
deriving DecidableEq, Repr

/-- which member stands in for a member of an interface -/
structure InterfaceSlot where
  /-- the name of the interface's member -/
  member : String
  implementation : MemberHandle
deriving DecidableEq, Repr

end ApiSurface
