/-
References to types, as metadata states them: named types with their arguments, generic parameters, arrays, managed
references and pointers. A nested type names the type that declares it and carries that type's arguments before its own.

A name may end in an arity marker, a backquote and digits, that says how many arguments its own level takes. Arities are
64-bit words, as positions are: a marker beyond them counts as zero, and their sum wraps.
-/
namespace ApiSurface

inductive TypeRef where
  /-- the namespace of a nested type is that of its outermost declaring type -/
  | named (ns : Option String) (name : String) (declaring : Option TypeRef) (arguments : List TypeRef)
  | parameter (name : String) (position : UInt64) (ofMethod : Bool)
  | array (element : TypeRef) (rank : UInt32)
  | byRef (element : TypeRef)
  | pointer (element : TypeRef)
deriving Repr, Inhabited

namespace TypeRef

/-! ## Equality -/

mutual

def same : TypeRef → TypeRef → Bool
  | .named ns name none args, .named ns' name' none args' => ns == ns' && name == name' && sameAll args args'
  | .named ns name (some d) args, .named ns' name' (some d') args' =>
    ns == ns' && name == name' && same d d' && sameAll args args'
  | .parameter name position ofMethod, .parameter name' position' ofMethod' =>
    name == name' && position == position' && ofMethod == ofMethod'
  | .array element rank, .array element' rank' => same element element' && rank == rank'
  | .byRef element, .byRef element' => same element element'
  | .pointer element, .pointer element' => same element element'
  | _, _ => false

def sameAll : List TypeRef → List TypeRef → Bool
  | [], [] => true
  | a :: as, b :: bs => same a b && sameAll as bs
  | _, _ => false

end

mutual

theorem same_iff (a b : TypeRef) : same a b = true ↔ a = b := by
  cases a with
  | named ns name d args =>
    cases b with
    | named ns' name' d' args' =>
      cases d with
      | none => cases d' <;> simp [same, sameAll_iff args args', and_assoc]
      | some d =>
        cases d' with
        | none => simp [same]
        | some d' => simp [same, same_iff d d', sameAll_iff args args', and_assoc]
    | _ => cases d <;> simp [same]
  | parameter name position ofMethod => cases b <;> simp [same, and_assoc]
  | array element rank =>
    cases b with
    | array element' rank' => simp [same, same_iff element element']
    | _ => simp [same]
  | byRef element =>
    cases b with
    | byRef element' => simp [same, same_iff element element']
    | _ => simp [same]
  | pointer element =>
    cases b with
    | pointer element' => simp [same, same_iff element element']
    | _ => simp [same]

theorem sameAll_iff (as bs : List TypeRef) : sameAll as bs = true ↔ as = bs := by
  cases as with
  | nil => cases bs <;> simp [sameAll]
  | cons a as =>
    cases bs with
    | nil => simp [sameAll]
    | cons b bs => simp [sameAll, same_iff a b, sameAll_iff as bs]

end

instance : DecidableEq TypeRef := fun a b => decidable_of_iff _ (same_iff a b)

/-! ## Building references -/

/-- a top-level type without arguments; an empty namespace is the global one -/
def topLevel (ns name : String) : TypeRef := .named (if ns.isEmpty then none else some ns) name none []

/-- a type nested in another, without arguments -/
def nestedIn (declaring : TypeRef) (name : String) : TypeRef := .named none name (some declaring) []

/-- the reference with other arguments; only named types have any -/
def withArguments (arguments : List TypeRef) : TypeRef → TypeRef
  | .named ns name declaring _ => .named ns name declaring arguments
  | other => other

/-! ## Parts of a reference -/

def isByRef : TypeRef → Bool
  | .byRef _ => true
  | _ => false

/-- the type that managed references, however many, refer to -/
def withoutByRef : TypeRef → TypeRef
  | .byRef element => element.withoutByRef
  | other => other

def arguments : TypeRef → List TypeRef
  | .named _ _ _ arguments => arguments
  | _ => []

/-- the type that declares a nested type -/
def declaring? : TypeRef → Option TypeRef
  | .named _ _ declaring _ => declaring
  | _ => none

/-- the namespace of the outermost declaring type; arrays and the like have their element's -/
def outerNamespace : TypeRef → Option String
  | .named _ _ (some declaring) _ => declaring.outerNamespace
  | .named ns _ none _ => ns
  | .array element _ => element.outerNamespace
  | .byRef element => element.outerNamespace
  | .pointer element => element.outerNamespace
  | .parameter _ _ _ => none

/-- a namespace as it stands before a name -/
def qualifier : Option String → String
  | none => ""
  | some ns => if ns.isEmpty then "" else ns ++ "."

/-- what identifies the definition behind a named type, whatever its arguments -/
def definitionKey? : TypeRef → Option String
  | .named _ name (some declaring) _ => declaring.definitionKey?.map fun key => key ++ "+" ++ name
  | .named ns name none _ => some (qualifier ns ++ name)
  | _ => none

/-! ## Arity -/

/-- a name without its arity marker, and the digits of the marker -/
def splitArity (name : String) : String × List Char :=
  let backward := name.toList.reverse
  let digits := backward.takeWhile Char.isDigit
  match digits, backward.dropWhile Char.isDigit with
  | _ :: _, '\x60' :: rest => (String.ofList rest.reverse, digits.reverse)
  | _, _ => (name, [])

/-- a name without its arity marker -/
def stripArity (name : String) : String := (splitArity name).1

/-- the number of arguments that a name's own level takes -/
def ownArity (name : String) : UInt64 :=
  let n := Nat.ofDigitChars 10 (splitArity name).2 0
  if n < UInt64.size then UInt64.ofNat n else 0

/-- the number of arguments that a type and all its declaring types take -/
def totalArity : TypeRef → UInt64
  | .named _ name none _ => ownArity name
  | .named _ name (some declaring) _ => declaring.totalArity + ownArity name
  | _ => 0

/-! ## Substitution -/

mutual

/-- the reference with every type parameter replaced by the argument at its position, where there is one -/
def substitute (arguments : List TypeRef) : TypeRef → TypeRef
  | .parameter name position false => arguments[position.toNat]?.getD (.parameter name position false)
  | .parameter name position true => .parameter name position true
  | .named ns name declaring own => .named ns name declaring (substituteAll arguments own)
  | .array element rank => .array (substitute arguments element) rank
  | .byRef element => .byRef (substitute arguments element)
  | .pointer element => .pointer (substitute arguments element)

def substituteAll (arguments : List TypeRef) : List TypeRef → List TypeRef
  | [] => []
  | r :: rest => substitute arguments r :: substituteAll arguments rest

end

end TypeRef

end ApiSurface
