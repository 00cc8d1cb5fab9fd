/-
The closed vocabularies of declarations: visibilities, kinds of types and members, and ways to pass a parameter, each
with its keyword in a declaration and its name in a document.
-/
import ApiSurface.Json.Decoder

namespace ApiSurface

open Json

/-! ## Visibility -/

/-- who may use a type or member -/
inductive Visibility where
  | pub
  | prot
  | internal
  | protInternal
  | priv
deriving DecidableEq, Repr

namespace Visibility

def all : List Visibility := [.pub, .prot, .internal, .protInternal, .priv]

def keyword : Visibility → String
  | .pub => "public"
  | .prot => "protected"
  | .internal => "internal"
  | .protInternal => "protected internal"
  | .priv => "private"

/-- code outside the module can reach it, directly or by derivation -/
def isExternallyVisible : Visibility → Bool
  | .pub => true
  | .prot => true
  | .protInternal => true
  | .internal => false
  | .priv => false

def name : Visibility → String
  | .pub => "Public"
  | .prot => "Protected"
  | .internal => "Internal"
  | .protInternal => "ProtectedInternal"
  | .priv => "Private"

def toJson (v : Visibility) : Json := .string v.name

def decoder : Decoder Visibility := Decoder.oneOf (all.map fun v => (v.name, v))

end Visibility

/-! ## Kinds of types -/

inductive TypeKind where
  | structType
  | interfaceType
  | classType
  | enumType
deriving DecidableEq, Repr

namespace TypeKind

def all : List TypeKind := [.structType, .interfaceType, .classType, .enumType]

def keyword : TypeKind → String
  | .structType => "struct"
  | .interfaceType => "interface"
  | .classType => "class"
  | .enumType => "enum"

def name : TypeKind → String
  | .structType => "Struct"
  | .interfaceType => "Interface"
  | .classType => "Class"
  | .enumType => "Enumeration"

def toJson (k : TypeKind) : Json := .string k.name

def decoder : Decoder TypeKind := Decoder.oneOf (all.map fun k => (k.name, k))

end TypeKind

/-! ## Kinds of members -/

inductive MemberKind where
  | constructor
  | method
  | field
deriving DecidableEq, Repr

namespace MemberKind

def all : List MemberKind := [.constructor, .method, .field]

/-- the word in a signature -/
def keyword : MemberKind → String
  | .constructor => "constructor"
  | .method => "method"
  | .field => "field"

def name : MemberKind → String
  | .constructor => "Constructor"
  | .method => "Method"
  | .field => "Field"

def toJson (k : MemberKind) : Json := .string k.name

def decoder : Decoder MemberKind := Decoder.oneOf (all.map fun k => (k.name, k))

end MemberKind

/-! ## Passing a parameter -/

inductive Direction where
  | input
  | output
  | reference
deriving DecidableEq, Repr

namespace Direction

def all : List Direction := [.input, .output, .reference]

/-- what stands before the type in a declaration -/
def keyword : Direction → String
  | .input => ""
  | .output => "out "
  | .reference => "ref "

def name : Direction → String
  | .input => "In"
  | .output => "Out"
  | .reference => "Ref"

def toJson (d : Direction) : Json := .string d.name

def decoder : Decoder Direction := Decoder.oneOf (all.map fun d => (d.name, d))

end Direction

end ApiSurface
