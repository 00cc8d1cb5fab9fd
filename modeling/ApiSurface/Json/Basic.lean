/-
JSON values. An object keeps its members in the order they were given, so a value can be written field by field.
`Json.sorted` is the value as a finite map from keys, the form in which documents are held in memory: members in the
order of their keys, the last of several members under one key.
-/
import ApiSurface.Double.Basic

namespace ApiSurface

/-- a number is an integer, or a double when it was written with a fraction or an exponent or is too large -/
inductive Number where
  | int (value : Int)
  | double (value : Double)
deriving DecidableEq, Repr

inductive Json where
  | null
  | bool (value : Bool)
  | number (value : Number)
  | string (value : String)
  | array (items : List Json)
  | object (members : List (String × Json))
deriving Repr, Inhabited

namespace Json

def nat (n : Nat) : Json := .number (.int n)

/-! ## Members of an object under construction -/

/-- the members of an object, in order -/
abbrev Members := List (String × Json)

/-- a member that is always written -/
def member (key : String) (value : Json) : Members := [(key, value)]

/-- a flag, written only when set -/
def flag (key : String) (value : Bool) : Members := if value then [(key, .bool true)] else []

/-- a value, written only when there is one -/
def optional {α : Type} (key : String) (write : α → Json) : Option α → Members
  | none => []
  | some value => [(key, write value)]

/-- a list, written only when it has elements -/
def list {α : Type} (key : String) (write : α → Json) : List α → Members
  | [] => []
  | values => [(key, .array (values.map write))]

/-! ## The form held in memory -/

/-- put a member into a list sorted by key, in place of one of the same key -/
def insertMember {α : Type} (key : String) (value : α) : List (String × α) → List (String × α)
  | [] => [(key, value)]
  | (k, v) :: rest =>
    match compare key k with
    | .lt => (key, value) :: (k, v) :: rest
    | .eq => (key, value) :: rest
    | .gt => (k, v) :: insertMember key value rest

/-- members in the order of their keys; the last one of a key stays -/
def sortMembers {α : Type} (members : List (String × α)) : List (String × α) :=
  members.foldl (fun sorted m => insertMember m.1 m.2 sorted) []

mutual

/-- the value with every object's members in the order of their keys -/
def sorted : Json → Json
  | .array items => .array (sortedItems items)
  | .object members => .object (sortMembers (sortedMembers members))
  | .null => .null
  | .bool b => .bool b
  | .number n => .number n
  | .string s => .string s

def sortedItems : List Json → List Json
  | [] => []
  | item :: rest => sorted item :: sortedItems rest

def sortedMembers : List (String × Json) → List (String × Json)
  | [] => []
  | (key, value) :: rest => (key, sorted value) :: sortedMembers rest

end

/-- the value of an object's first member under a key -/
def get? (key : String) : Json → Option Json
  | .object members => members.lookup key
  | _ => none

end Json

end ApiSurface
