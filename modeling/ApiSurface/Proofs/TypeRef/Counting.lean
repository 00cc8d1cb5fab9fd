/-
Additions of arities that fail where they overflow, and names that are put together with them.

`checkedArity_eq`: nothing overflows exactly when the sum over the levels fits, and then the sum is the arity.
`strictName_eq`: so names are put together without an overflow, and never from a slice that is out of range.
-/
import ApiSurface.Proofs.TypeRef.Arity
import ApiSurface.Proofs.TypeRef.Inside
import ApiSurface.Proofs.TypeRef.Substitution
import ApiSurface.TypeRef.Name
import Mathlib.Logic.Relation

namespace ApiSurface.TypeRef

/-! ## Sums -/

/-- the sum of words, unless it overflows -/
def addChecked (a b : UInt64) : Option UInt64 := if a.toNat + b.toNat < UInt64.size then some (a + b) else none

/-- the arity, unless an addition overflows on the way -/
def checkedArity : TypeRef → Option UInt64
  | .named _ name none _ => addChecked 0 (ownArity name)
  | .named _ name (some declaring) _ => declaring.checkedArity.bind fun enclosing => addChecked enclosing (ownArity name)
  | _ => some 0

/-- **An addition overflows exactly when no word can hold the sum**; otherwise the additions give the arity. -/
theorem checkedArity_eq (r : TypeRef) : r.checkedArity = if r.countedSum < UInt64.size then some r.totalArity else none := by
  match r with
  | .named ns name none own =>
    have hcounted : countedSum (.named ns name none own) < UInt64.size := counted_lt name
    have hsum : (0 : UInt64).toNat + (ownArity name).toNat < UInt64.size := by
      rw [UInt64.toNat_zero, Nat.zero_add]
      exact (ownArity name).toNat_lt_size
    rw [checkedArity, addChecked, if_pos hsum, if_pos hcounted, UInt64.zero_add, totalArity]
  | .named _ name (some declaring) _ =>
    rw [checkedArity, checkedArity_eq declaring, countedSum_nested]
    by_cases hdeclaring : declaring.countedSum < UInt64.size
    · rw [if_pos hdeclaring, Option.bind_some, addChecked, toNat_totalArity_of_counted hdeclaring, toNat_ownArity, totalArity]
    · rw [if_neg hdeclaring, Option.bind_none, if_neg (by omega)]
  | .parameter _ _ _ | .array _ _ | .byRef _ | .pointer _ => rfl

/-! ## References throughout -/

/-- the reference is another one or stands in it, however deep -/
abbrev Occurs : TypeRef → TypeRef → Prop := Relation.ReflTransGen fun q r => q ∈ r.inside

/-- something holds of the reference and of all that stands in it, however deep -/
inductive Throughout (P : TypeRef → Prop) : TypeRef → Prop
  | intro {r : TypeRef} (holds : P r) (inside : ∀ q ∈ r.inside, Throughout P q) : Throughout P r

/-- no sum within the reference overflows -/
abbrev CountsUp : TypeRef → Prop := Throughout fun q => q.countedSum < UInt64.size

/-- no sum within the references overflows -/
abbrev AllCount (rs : List TypeRef) : Prop := ∀ r ∈ rs, CountsUp r

namespace Throughout

variable {P Q : TypeRef → Prop} {r : TypeRef}

theorem holds (h : Throughout P r) : P r := by
  cases h
  assumption

theorem of_inside (h : Throughout P r) {q : TypeRef} (hq : q ∈ r.inside) : Throughout P q := by
  cases h with
  | intro _ hinside => exact hinside q hq

theorem mono (h : Throughout P r) (hPQ : ∀ q, P q → Q q) : Throughout Q r := by
  induction h with
  | intro hr _ ih => exact ⟨hPQ _ hr, ih⟩

theorem of_forall (h : ∀ q, P q) (r : TypeRef) : Throughout P r := by
  induction r using inside_induction with
  | step r ih => exact ⟨h r, ih⟩

theorem of_occurs (h : Throughout P r) {q : TypeRef} (hq : q.Occurs r) : Throughout P q := by
  induction hq using Relation.ReflTransGen.head_induction_on with
  | refl => exact h
  | head hq _ ih => exact ih.of_inside hq

theorem of_forall_occurs (h : ∀ q, q.Occurs r → P q) : Throughout P r := by
  induction r using inside_induction with
  | step r ih => exact ⟨h r .refl, fun q hq => ih q hq fun p hp => h p (hp.tail hq)⟩

end Throughout

namespace CountsUp

variable {r : TypeRef} {arguments : List TypeRef}

/-- a reference that nothing stands in -/
theorem of_inside_eq_nil (hnone : r.inside = []) (hsum : r.countedSum < UInt64.size) : r.CountsUp :=
  ⟨hsum, fun _ hq => absurd (hnone ▸ hq) List.not_mem_nil⟩

theorem withoutByRef (h : r.CountsUp) : r.withoutByRef.CountsUp := by
  induction h with
  | @intro r hr hinside ih =>
    cases r with
    | byRef element => exact ih element List.mem_cons_self
    | _ => exact ⟨hr, hinside⟩

theorem of_argument (h : r.CountsUp) {a : TypeRef} (ha : a ∈ r.arguments) : a.CountsUp := by
  cases r with
  | named ns name declaring own => exact h.of_inside (List.mem_append_right _ ha)
  | _ => cases ha

/-- the declaring types of a reference stay when arguments are put in, and the levels keep their names -/
theorem substitute (h : r.CountsUp) (harguments : ∀ a ∈ arguments, a.CountsUp) : (r.substitute arguments).CountsUp := by
  have hzero : 0 < UInt64.size := by decide
  induction h with
  | @intro r hr hinside ih =>
    cases r with
    | named ns name declaring own =>
      rw [TypeRef.substitute, substituteAll_eq_map]
      refine ⟨?_, fun q hq => ?_⟩
      · cases declaring <;> exact hr
      · rcases List.mem_append.1 hq with hq | hq
        · exact hinside q (List.mem_append_left _ hq)
        · obtain ⟨a, ha, rfl⟩ := List.mem_map.1 hq
          exact ih a (List.mem_append_right _ ha)
    | parameter name position ofMethod =>
      cases ofMethod with
      | true => exact ⟨hr, hinside⟩
      | false =>
        rw [TypeRef.substitute]
        cases hfound : arguments[position.toNat]? with
        | none => exact ⟨hr, hinside⟩
        | some a => exact harguments a (List.mem_of_getElem? hfound)
    | array element rank => exact ⟨hzero, fun q hq => List.mem_singleton.1 hq ▸ ih element List.mem_cons_self⟩
    | byRef element => exact ⟨hzero, fun q hq => List.mem_singleton.1 hq ▸ ih element List.mem_cons_self⟩
    | pointer element => exact ⟨hzero, fun q hq => List.mem_singleton.1 hq ▸ ih element List.mem_cons_self⟩

end CountsUp

/-! ## Names -/

/-- the elements before a bound, unless the bound is out of range -/
def sliceTo {α : Type} (bound : Nat) (xs : List α) : Option (List α) :=
  if bound ≤ xs.length then some (xs.take bound) else none

/-- the elements from a bound on, unless the bound is out of range -/
def sliceFrom {α : Type} (bound : Nat) (xs : List α) : Option (List α) :=
  if bound ≤ xs.length then some (xs.drop bound) else none

mutual

/-- the name of a reference, put together as `nameWith` does, unless an arity cannot be told or a slice is out of range -/
def strictName (arity : TypeRef → Option UInt64) (given : Option (List String)) : TypeRef → Option String
  | .parameter name _ _ => some name
  | .byRef element => strictName arity none element
  | .array element rank => (strictName arity none element).map fun name => name ++ "[" ++ commas rank ++ "]"
  | .pointer element => (strictName arity none element).map fun name => name ++ "*"
  | .named ns name none own => do
    let names ← given.or (strictNames arity own)
    return nameWith (some names) (.named ns name none own)
  | .named _ name (some declaring) own => do
    let names ← given.or (strictNames arity own)
    let bound ← arity declaring
    if 0 < bound.toNat ∧ bound.toNat ≤ names.length then
      let first ← sliceTo bound.toNat names
      let outer ← strictName arity (some first) declaring
      let rest ← sliceFrom bound.toNat names
      return outer ++ "+" ++ stripArity name ++ angled rest
    else
      let outer ← strictName arity none declaring
      return outer ++ "+" ++ stripArity name ++ angled names

def strictNames (arity : TypeRef → Option UInt64) : List TypeRef → Option (List String)
  | [] => some []
  | r :: rest => do
    let name ← strictName arity none r
    let names ← strictNames arity rest
    return name :: names

end

/-- the canonical name, unless an addition overflows on the way -/
def checkedName (r : TypeRef) : Option String := strictName checkedArity none r

theorem strictNames_eq {arity : TypeRef → Option UInt64} {rs : List TypeRef}
    (h : ∀ r ∈ rs, strictName arity none r = some (nameWith none r)) : strictNames arity rs = some (namesOf rs) := by
  induction rs with
  | nil => rfl
  | cons r rest ih =>
    obtain ⟨hr, hrest⟩ := List.forall_mem_cons.1 h
    rw [strictNames, hr, ih hrest]
    rfl

/-- **Names** are put together to the end where all arities can be told. -/
theorem strictName_eq {arity : TypeRef → Option UInt64} {r : TypeRef}
    (h : Throughout (fun q => arity q = some q.totalArity) r) (given : Option (List String)) :
    strictName arity given r = some (nameWith given r) := by
  induction h generalizing given with
  | @intro r _ hinside ih =>
    cases r with
    | named ns name declaring own =>
      have hown : strictNames arity own = some (namesOf own) :=
        strictNames_eq fun q hq => ih q (List.mem_append_right _ hq) none
      have hnames : given.or (strictNames arity own) = some (given.getD (namesOf own)) := by
        rw [hown]
        cases given <;> rfl
      cases declaring with
      | none =>
        rw [strictName, hnames]
        simp only [nameWith, Option.getD_some]
        rfl
      | some d =>
        have hd : d ∈ (TypeRef.named ns name (some d) own).inside := List.mem_append_left _ List.mem_cons_self
        rw [strictName, hnames, (hinside d hd).holds, nameWith]
        simp only [bind, Option.bind_some, pure]
        split
        · next hbound =>
          rw [sliceTo, sliceFrom, if_pos hbound.2, if_pos hbound.2, Option.bind_some, ih d hd]
          rfl
        · rw [ih d hd]
          rfl
    | parameter => rw [strictName, nameWith]
    | array element rank =>
      rw [strictName, ih element List.mem_cons_self, nameWith]
      rfl
    | byRef element => rw [strictName, ih element List.mem_cons_self, nameWith]
    | pointer element =>
      rw [strictName, ih element List.mem_cons_self, nameWith]
      rfl

/-- **No slice is out of range**, whatever reference is named. -/
theorem strictName_totalArity (r : TypeRef) : strictName (fun q => some q.totalArity) none r = some r.canonicalName :=
  strictName_eq (.of_forall (fun _ => rfl) r) none

/-- **No addition overflows** where no sum does. -/
theorem checkedName_eq {r : TypeRef} (h : r.CountsUp) : r.checkedName = some r.canonicalName :=
  strictName_eq (h.mono fun q hq => (checkedArity_eq q).trans (if_pos hq)) none

end ApiSurface.TypeRef
