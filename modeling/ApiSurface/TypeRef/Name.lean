/-
Canonical names: the text that shows a type and identifies it. Arguments stand in angle brackets, at the level of a
nested type that takes them; `System.Nullable` of a type is the type with a question mark; a managed reference has the
name of what it refers to.
-/
import ApiSurface.TypeRef.Basic

namespace ApiSurface.TypeRef

def nullableNamespace : String := "System"

def nullableName : String := "Nullable`1"

/-- names in angle brackets, or nothing for none -/
def angled (names : List String) : String :=
  if names.isEmpty then "" else "<" ++ String.intercalate ", " names ++ ">"

/-- one comma less than an array has dimensions -/
def commas (rank : UInt32) : String := String.ofList (List.replicate (rank.toNat - 1) ',')

mutual

/-- the name of a reference; the names given, if any, stand for those of a named type's own arguments -/
def nameWith (given : Option (List String)) : TypeRef → String
  | .parameter name _ _ => name
  | .byRef element => nameWith none element
  | .array element rank => nameWith none element ++ "[" ++ commas rank ++ "]"
  | .pointer element => nameWith none element ++ "*"
  | .named ns name none own =>
    let names := given.getD (namesOf own)
    match names with
    | [only] =>
      if ns = some nullableNamespace ∧ name = nullableName then only ++ "?"
      else qualifier ns ++ stripArity name ++ angled names
    | _ => qualifier ns ++ stripArity name ++ angled names
  | .named _ name (some declaring) own =>
    let names := given.getD (namesOf own)
    let bound := declaring.totalArity.toNat
    if 0 < bound ∧ bound ≤ names.length then
      nameWith (some (names.take bound)) declaring ++ "+" ++ stripArity name ++ angled (names.drop bound)
    else nameWith none declaring ++ "+" ++ stripArity name ++ angled names

def namesOf : List TypeRef → List String
  | [] => []
  | r :: rest => nameWith none r :: namesOf rest

end

/-- the name that shows and identifies a type -/
def canonicalName (r : TypeRef) : String := nameWith none r

/-- the label of a constrained parameter without a name -/
def constraintLabel (position : UInt64) : String := "T" ++ position.toNat.repr

/-- a name that a compiler invented, which no stable identity can be built on -/
def isSynthesizedName (name : String) : Bool :=
  name.isEmpty || name.toList.any fun c => c == '<' || c == '>'

end ApiSurface.TypeRef
