/-
References that metadata can hold: what they are made of, and when each of these parts is well formed.

A reference is well formed when all its parts are: a named part has the name of a definition and exactly the arguments
that the definition takes, and nothing is a managed reference. It is countable when words can hold the arities of its parts.
-/
import ApiSurface.Proofs.TypeRef.Arity
import ApiSurface.TypeRef.Name

namespace ApiSurface.TypeRef

/-! ## Parts -/

mutual

/-- the reference with all that it is made of: arguments and elements, but not the types that declare it -/
def parts : TypeRef → List TypeRef
  | .named ns name declaring own => .named ns name declaring own :: partsOf own
  | .parameter name position ofMethod => [.parameter name position ofMethod]
  | .array element rank => .array element rank :: parts element
  | .byRef element => .byRef element :: parts element
  | .pointer element => .pointer element :: parts element

def partsOf : List TypeRef → List TypeRef
  | [] => []
  | r :: rest => parts r ++ partsOf rest

end

theorem mem_parts (r : TypeRef) : r ∈ r.parts := by
  cases r <;> simp [parts]

theorem mem_partsOf {s : TypeRef} {rs : List TypeRef} : s ∈ partsOf rs ↔ ∃ r ∈ rs, s ∈ r.parts := by
  induction rs with
  | nil => simp [partsOf]
  | cons r rest ih => simp [partsOf, ih]

/-- what holds of a reference as soon as it holds of its arguments, or of its element, holds of all references -/
theorem inductionOn {P : TypeRef → Prop}
    (named : ∀ ns name declaring own, (∀ r ∈ own, P r) → P (.named ns name declaring own))
    (parameter : ∀ name position ofMethod, P (.parameter name position ofMethod))
    (array : ∀ element rank, P element → P (.array element rank)) (byRef : ∀ element, P element → P (.byRef element))
    (pointer : ∀ element, P element → P (.pointer element)) : ∀ r, P r
  | .named ns name declaring own =>
    named ns name declaring own fun r _ => inductionOn named parameter array byRef pointer r
  | .parameter name position ofMethod => parameter name position ofMethod
  | .array element rank => array element rank (inductionOn named parameter array byRef pointer element)
  | .byRef element => byRef element (inductionOn named parameter array byRef pointer element)
  | .pointer element => pointer element (inductionOn named parameter array byRef pointer element)

/-! ## Words -/

/-- the characters that put the words of canonical names together, and the one that marks arities -/
def signs : List Char := ['.', '+', '<', '>', ',', '[', ']', '*', '?', '\x60', ' ']

def IsIdentifier (s : String) : Prop := s ≠ "" ∧ ∀ c ∈ s.toList, c ∉ signs

instance (s : String) : Decidable (IsIdentifier s) :=
  decidable_of_iff (s ≠ "" ∧ (s.toList.all fun c => decide (c ∉ signs)) = true) (by simp [IsIdentifier])

/-- words with dots between -/
def IsNamespace (ns : String) : Prop :=
  ∃ words, words ≠ [] ∧ (∀ w ∈ words, IsIdentifier w) ∧ ns = String.intercalate "." words

/-- an identifier, marked with the number of its arguments if the level takes any -/
def IsLevelName (name : String) : Prop := ∃ base arity, IsIdentifier base ∧ name = marked base arity

theorem IsIdentifier.not_mem {s : String} (h : IsIdentifier s) : '\x60' ∉ s.toList := fun hmem =>
  h.2 _ hmem (by decide)

/-! ## Well-formed references -/

/-- a type without arguments: in a namespace or in none, or nested in another and without a namespace of its own -/
inductive IsDefinition : TypeRef → Prop
  | topLevel {ns : Option String} {name : String} :
    (∀ words ∈ ns, IsNamespace words) → IsLevelName name → IsDefinition (.named ns name none [])
  | nested {declaring : TypeRef} {name : String} :
    IsDefinition declaring → IsLevelName name → IsDefinition (.named none name (some declaring) [])

/-- a part is well formed by itself: all arguments are given, arrays have dimensions, nothing is a managed reference -/
def Formed : TypeRef → Prop
  | .named ns name declaring own =>
    IsDefinition (.named ns name declaring []) ∧ own.length = (totalArity (.named ns name declaring own)).toNat
  | .parameter name _ _ => IsIdentifier name
  | .array _ rank => 1 ≤ rank
  | .byRef _ => False
  | .pointer _ => True

def WellFormed (r : TypeRef) : Prop := ∀ s ∈ r.parts, Formed s

/-- words can hold the arities of all parts -/
def Countable (r : TypeRef) : Prop := ∀ s ∈ r.parts, s.markerSum < UInt64.size

/-! ## Bare names -/

/-- the name of a parameter -/
def parameterName? : TypeRef → Option String
  | .parameter name _ _ => some name
  | _ => none

/-- the name of a type at the top level outside all namespaces -/
def globalName? : TypeRef → Option String
  | .named none name none _ => some name
  | _ => none

/-- no parameter is called like a type at the top level outside all namespaces -/
def Unmistakable (parts : List TypeRef) : Prop :=
  ∀ s ∈ parts, ∀ t ∈ parts, ∀ name, s.parameterName? = some name → t.globalName? ≠ some name

mutual

/-- the reference with its parameters known by their names alone -/
def withoutPositions : TypeRef → TypeRef
  | .named ns name declaring own => .named ns name declaring (withoutPositionsAll own)
  | .parameter name _ _ => .parameter name 0 false
  | .array element rank => .array (withoutPositions element) rank
  | .byRef element => .byRef (withoutPositions element)
  | .pointer element => .pointer (withoutPositions element)

def withoutPositionsAll : List TypeRef → List TypeRef
  | [] => []
  | r :: rest => withoutPositions r :: withoutPositionsAll rest

end

theorem withoutPositionsAll_eq (rs : List TypeRef) : withoutPositionsAll rs = rs.map withoutPositions := by
  induction rs with
  | nil => rfl
  | cons r rest ih => rw [withoutPositionsAll, ih, List.map_cons]

end ApiSurface.TypeRef
