/-
Parameters can be read back.

`ParameterDescriptor.text_cut`: a parameter of known type and direction is cut off in one way.
`ParameterDescriptor.list_inj`: so are the parameters between the parentheses of a declaration.
-/
import ApiSurface.Descriptor.Member
import ApiSurface.Proofs.Descriptor.Constant
import ApiSurface.Proofs.Descriptor.Vocabulary

namespace ApiSurface.ParameterDescriptor

open Text

/-! ## One parameter -/

/-- the keywords before the type; the first parameter of an extension method has one more -/
def lead (extended : Bool) (p : ParameterDescriptor) : List String :=
  (if extended then ["this"] else []) ++
    ((match p.direction with
      | .input => []
      | .output => ["out"]
      | .reference => ["ref"]) ++
      if p.isParams then ["params"] else [])

/-- the declaration as characters -/
def text (extended : Bool) (p : ParameterDescriptor) : List Char :=
  spaced ((p.lead extended).map String.toList) ++ (p.type.toList ++ ' ' :: (p.name.toList ++ assigned p.default))

theorem toList_id (extended : Bool) (p : ParameterDescriptor) :
    ((if extended then "this " else "") ++ p.id).toList = p.text extended := by
  obtain ⟨name, type, direction, default, isParams⟩ := p
  unfold id text lead
  cases extended <;> cases direction <;> cases isParams <;> cases default <;>
    simp [spaced, assigned, Direction.keyword]

theorem lead_subset (extended : Bool) (p : ParameterDescriptor) : ∀ w ∈ p.lead extended, w ∈ keywords := by
  unfold lead
  cases extended <;> cases p.direction <;> cases p.isParams <;> decide

/-- the keywords tell whether the parameter is extended and takes any number of arguments -/
theorem lead_inj {e f : Bool} {p q : ParameterDescriptor} (h : p.lead e = q.lead f) : e = f ∧ p.isParams = q.isParams := by
  have hthis : ∀ (e : Bool) (p : ParameterDescriptor), "this" ∈ p.lead e ↔ e = true := by
    intro e p
    unfold lead
    cases e <;> cases p.direction <;> cases p.isParams <;> decide
  have hparams : ∀ (e : Bool) (p : ParameterDescriptor), "params" ∈ p.lead e ↔ p.isParams = true := by
    intro e p
    unfold lead
    cases e <;> cases p.direction <;> cases p.isParams <;> decide
  exact ⟨Bool.eq_iff_iff.2 (by rw [← hthis e p, ← hthis f q, h]),
    Bool.eq_iff_iff.2 (by rw [← hparams e p, ← hparams f q, h])⟩

/-- the type is called like one, the name is an identifier, and the default is a constant -/
structure Readable (p : ParameterDescriptor) : Prop where
  type : TypeName p.type
  name : Identifier p.name
  default : ∀ value ∈ p.default, ConstantText value.toList

/-- a name goes on with nothing that it may contain -/
theorem begins_assigned (value : Option String) {x : List Char} (hx : Begins IsStop x) :
    Begins (fun c => c ∈ [' ', ',', '(', ')', '=']) (assigned value ++ x) := by
  cases value with
  | none =>
    cases x with
    | nil => exact hx.elim
    | cons c x =>
      rcases hx with rfl | rfl
      · exact (by decide : ',' ∈ [' ', ',', '(', ')', '='])
      · exact (by decide : ')' ∈ [' ', ',', '(', ')', '='])
  | some value => exact (by decide : ' ' ∈ [' ', ',', '(', ')', '='])

/-- **A parameter is cut off in one way** before a comma or a parenthesis, when its type and direction are known. -/
theorem text_cut {e f : Bool} {p q : ParameterDescriptor} {x y : List Char} (hp : p.Readable) (hq : q.Readable)
    (hdirection : p.direction = q.direction) (htype : p.type = q.type) (hx : Begins IsStop x) (hy : Begins IsStop y)
    (h : p.text e ++ x = q.text f ++ y) : e = f ∧ p = q ∧ x = y := by
  -- no keyword is a type, so that the type ends the keywords
  have hlead : ∀ (e : Bool) (r : ParameterDescriptor), ∀ w ∈ (r.lead e).map String.toList,
      Closed w ∧ ¬w = q.type.toList := by
    intro e r w hw
    obtain ⟨s, hs, rfl⟩ := List.mem_map.1 hw
    have hkeyword := lead_subset e r s hs
    exact ⟨closed_of_mem_keywords hkeyword, fun hst => hq.type.free (String.toList_inj.1 hst ▸ hkeyword)⟩
  unfold text at h
  rw [htype, List.append_assoc, List.append_assoc, List.append_assoc, List.append_assoc, List.cons_append,
    List.cons_append] at h
  obtain ⟨hwords, -, hrest⟩ := spaced_cut (hlead e p) (hlead f q) ⟨hq.type.closed, rfl⟩ ⟨hq.type.closed, rfl⟩ h
  obtain ⟨hextended, hparams⟩ := lead_inj (map_toList_inj hwords)
  rw [List.append_assoc, List.append_assoc] at hrest
  obtain ⟨hname, hvalue⟩ := cut_before hp.name hq.name (begins_assigned _ hx) (begins_assigned _ hy) hrest
  obtain ⟨hdefault, hxy⟩ := assigned_cut hp.default hq.default hx hy hvalue
  have hname : p.name = q.name := String.toList_inj.1 hname
  refine ⟨hextended, ?_, hxy⟩
  cases p
  cases q
  simp only at hname htype hdirection hdefault hparams
  rw [hname, htype, hdirection, hdefault, hparams]

/-! ## Lists of parameters -/

/-- parameters after another one -/
def moreText (ps : List ParameterDescriptor) : List Char := ps.flatMap fun p => ',' :: ' ' :: p.text false

/-- the parameters of a declaration -/
def listText (extended : Bool) : List ParameterDescriptor → List Char
  | [] => []
  | p :: rest => p.text extended ++ moreText rest

theorem begins_moreText (ps : List ParameterDescriptor) (x : List Char) : Begins IsStop (moreText ps ++ ')' :: x) := by
  cases ps with
  | nil => exact Or.inr rfl
  | cons p ps => exact Or.inl rfl

/-- what parameters have in common when they are paired -/
def slots (ps : List ParameterDescriptor) : List (Direction × String) := ps.map fun p => (p.direction, p.type)

theorem more_inj {ps qs : List ParameterDescriptor} {x y : List Char} (hps : ∀ p ∈ ps, p.Readable)
    (hqs : ∀ q ∈ qs, q.Readable) (hslots : slots ps = slots qs)
    (h : moreText ps ++ ')' :: x = moreText qs ++ ')' :: y) : ps = qs ∧ x = y := by
  induction ps generalizing qs with
  | nil =>
    cases qs with
    | nil => exact ⟨rfl, (List.cons.inj h).2⟩
    | cons q qs => cases hslots
  | cons p ps ih =>
    cases qs with
    | nil => cases hslots
    | cons q qs =>
      rw [List.forall_mem_cons] at hps hqs
      obtain ⟨hp, hps⟩ := hps
      obtain ⟨hq, hqs⟩ := hqs
      obtain ⟨hpair, htails⟩ := List.cons.inj hslots
      obtain ⟨hdirection, htype⟩ := Prod.mk.inj hpair
      unfold moreText at h
      rw [List.flatMap_cons, List.flatMap_cons, List.append_assoc, List.append_assoc] at h
      have htext := (List.cons.inj (List.cons.inj h).2).2
      obtain ⟨-, rfl, hrest⟩ := text_cut hp hq hdirection htype
        (begins_moreText ps x) (begins_moreText qs y) htext
      obtain ⟨rfl, hxy⟩ := ih hps hqs htails hrest
      exact ⟨rfl, hxy⟩

/-- **Parameters of known types and directions are read back** up to the closing parenthesis. -/
theorem list_inj {e f : Bool} {ps qs : List ParameterDescriptor} {x y : List Char} (hps : ∀ p ∈ ps, p.Readable)
    (hqs : ∀ q ∈ qs, q.Readable) (hslots : slots ps = slots qs)
    (h : listText e ps ++ ')' :: x = listText f qs ++ ')' :: y) : (ps ≠ [] → e = f) ∧ ps = qs ∧ x = y := by
  cases ps with
  | nil =>
    cases qs with
    | nil => exact ⟨fun hne => absurd rfl hne, rfl, (List.cons.inj h).2⟩
    | cons q qs => cases hslots
  | cons p ps =>
    cases qs with
    | nil => cases hslots
    | cons q qs =>
      rw [List.forall_mem_cons] at hps hqs
      obtain ⟨hp, hps⟩ := hps
      obtain ⟨hq, hqs⟩ := hqs
      obtain ⟨hpair, htails⟩ := List.cons.inj hslots
      obtain ⟨hdirection, htype⟩ := Prod.mk.inj hpair
      unfold listText at h
      rw [List.append_assoc, List.append_assoc] at h
      obtain ⟨hextended, rfl, hrest⟩ := text_cut hp hq hdirection htype
        (begins_moreText ps x) (begins_moreText qs y) h
      obtain ⟨rfl, hxy⟩ := more_inj hps hqs htails hrest
      exact ⟨fun _ => hextended, rfl, hxy⟩

end ApiSurface.ParameterDescriptor
