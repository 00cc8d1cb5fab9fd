/-
One view of every kind of descriptor, for filters and reports that treat them alike.
-/
import ApiSurface.Descriptor.Type

namespace ApiSurface

inductive Descriptor where
  | type (t : TypeDescriptor)
  | member (m : MemberDescriptor)
  | parameter (p : ParameterDescriptor)
  | genericParameter (g : GenericParameter)
  | genericConstraint (c : GenericConstraint)
deriving DecidableEq, Repr

namespace Descriptor

def id : Descriptor → String
  | .type t => t.id
  | .member m => m.id
  | .parameter p => p.id
  | .genericParameter g => g.id
  | .genericConstraint c => c.id

def name : Descriptor → String
  | .type t => t.name
  | .member m => m.name
  | .parameter p => p.name
  | .genericParameter g => g.name
  | .genericConstraint c => c.label

def kindLabel : Descriptor → String
  | .type _ => "type"
  | .member _ => "member"
  | .parameter _ => "parameter"
  | .genericParameter _ => "generic parameter"
  | .genericConstraint _ => "generic constraint"

end Descriptor

end ApiSurface
