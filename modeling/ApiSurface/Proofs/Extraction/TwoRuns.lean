/-
Two extractions side by side: both end in a fault, or both have results that are related, wherever all interface lists that
either keeps are right.

`Agree.bind`: one step after another. `Agree.mapM`: a step for each entry of two lists that match in some order.
-/
import ApiSurface.Extraction.Basic
import ApiSurface.Proofs.AnyOrder
import ApiSurface.Proofs.Extraction.Ensures
import ApiSurface.Proofs.Interfaces.Reordering

namespace ApiSurface

variable {α β γ δ : Type}

/-! ## Verdicts -/

/-- both are faults, or both are results that are related -/
inductive SameVerdict (R : α → β → Prop) : Except ExtractionFault α → Except ExtractionFault β → Prop
  | fault (e e' : ExtractionFault) : SameVerdict R (.error e) (.error e')
  | result {a : α} {b : β} (h : R a b) : SameVerdict R (.ok a) (.ok b)

namespace SameVerdict

variable {R : α → β → Prop} {Q : γ → δ → Prop} {x : Except ExtractionFault α} {x' : Except ExtractionFault β}

theorem imp {P : α → β → Prop} (hRP : ∀ a b, R a b → P a b) (h : SameVerdict R x x') : SameVerdict P x x' := by
  cases h with
  | fault e e' => exact fault e e'
  | result hR => exact result (hRP _ _ hR)

theorem ok_iff (h : SameVerdict R x x') : (∃ a, x = .ok a) ↔ ∃ b, x' = .ok b := by
  cases h with
  | fault e e' => simp
  | result hR => simp

theorem symm (h : SameVerdict R x x') : SameVerdict (fun b a => R a b) x' x := by
  cases h with
  | fault e e' => exact fault e' e
  | result hR => exact result hR

theorem bind {f : α → Except ExtractionFault γ} {f' : β → Except ExtractionFault δ} (hx : SameVerdict R x x')
    (hf : ∀ a b, R a b → SameVerdict Q (f a) (f' b)) : SameVerdict Q (x >>= f) (x' >>= f') := by
  cases hx with
  | fault e e' => exact fault e e'
  | result h => exact hf _ _ h

theorem trans {P : β → γ → Prop} {x'' : Except ExtractionFault γ} (h : SameVerdict R x x') (h' : SameVerdict P x' x'') :
    SameVerdict (fun a c => ∃ b, R a b ∧ P b c) x x'' := by
  cases h with
  | fault e e' =>
    cases h' with
    | fault _ e'' => exact fault e e''
  | result hR =>
    cases h' with
    | result hP => exact result ⟨_, hR, hP⟩

theorem mapM {f : α → Except ExtractionFault γ} {g : β → Except ExtractionFault δ} {xs : List α} {ys : List β}
    (h : List.Forall₂ (fun x y => SameVerdict Q (f x) (g y)) xs ys) :
    SameVerdict (List.Forall₂ Q) (xs.mapM f) (ys.mapM g) := by
  induction h with
  | nil => exact result .nil
  | cons hxy _ ih =>
    rw [List.mapM_cons, List.mapM_cons]
    exact hxy.bind fun a b hab => ih.bind fun as bs htail => result (.cons hab htail)

/-- what comes of each entry does not depend on the order, so neither does what comes of all -/
theorem mapM_perm (f : α → Except ExtractionFault γ) {xs ys : List α} (h : xs.Perm ys) :
    SameVerdict List.Perm (xs.mapM f) (ys.mapM f) := by
  induction h with
  | nil => exact result .nil
  | cons x _ ih =>
    rw [List.mapM_cons, List.mapM_cons]
    cases f x with
    | error e => exact fault e e
    | ok a => exact ih.bind fun as bs hperm => result (hperm.cons a)
  | swap x y rest =>
    simp only [List.mapM_cons]
    cases f x with
    | error e => cases f y with
      | error e' => exact fault e' e
      | ok b => exact fault e e
    | ok a => cases f y with
      | error e => exact fault e e
      | ok b => cases rest.mapM f with
        | error e => exact fault e e
        | ok as => exact result (.swap a b as)
  | trans _ _ ih ih' =>
    refine (ih.trans ih').imp ?_
    rintro as cs ⟨bs, hab, hbc⟩
    exact hab.trans hbc

end SameVerdict

/-! ## Computations -/

namespace Extracting

/-- the result or fault when nothing is kept yet -/
def outcome (m : Extracting α) : Except ExtractionFault α := Prod.fst <$> m.run []

theorem exists_of_outcome {m : Extracting α} {a : α} (ha : outcome m = .ok a) : ∃ known, m.run [] = .ok (a, known) := by
  unfold outcome at ha
  cases hrun : m.run [] with
  | error e =>
    rw [hrun] at ha
    cases ha
  | ok result =>
    rw [hrun] at ha
    cases ha
    exact ⟨result.2, rfl⟩

theorem Ensures.of_outcome {m : Extracting α} {p : α → Prop} {a : α} (hm : Ensures m p) (ha : outcome m = .ok a) : p a := by
  obtain ⟨known, hrun⟩ := exists_of_outcome ha
  exact hm [] a known hrun

section

variable {s : FactSet} (hs : s.Acyclic)

/-- wherever all that is kept is right, the computation comes to this, and leaves right what it keeps -/
def Yields (m : Extracting α) (x : Except ExtractionFault α) : Prop :=
  ∀ known : Closures, (∀ h, known.Right hs h) →
    ∃ known' : Closures, m.run known = (fun a => (a, known')) <$> x ∧ ∀ h, known'.Right hs h

/-- the computation comes to one result or fault, whatever is kept -/
def Steady (m : Extracting α) : Prop := Yields hs m (outcome m)

variable {hs} {m : Extracting α} {x : Except ExtractionFault α}

theorem Yields.outcome_eq (hm : Yields hs m x) : outcome m = x := by
  obtain ⟨known', hrun, -⟩ := hm [] fun h list hlist => by simp at hlist
  rw [outcome, hrun]
  cases x <;> rfl

theorem Yields.steady (hm : Yields hs m x) : Steady hs m := by
  rw [Steady, hm.outcome_eq]
  exact hm

theorem yields_lift (x : Except ExtractionFault α) : Yields hs (liftM x) x := by
  intro known hknown
  refine ⟨known, ?_, hknown⟩
  cases x <;> rfl

theorem yields_pure (a : α) : Yields hs (pure a) (.ok a) := fun known hknown => ⟨known, rfl, hknown⟩

theorem yields_throw (e : ExtractionFault) : Yields hs (throw e : Extracting α) (.error e) :=
  fun known hknown => ⟨known, rfl, hknown⟩

theorem yields_ofResolving {m : Resolving α} {a : α} (hm : Resolving.Answers hs (fun _ => True) m a) :
    Yields hs (ofResolving m) (.ok a) := by
  intro known hknown
  obtain ⟨known', hrun, hkeep⟩ := hm known fun h _ => hknown h
  refine ⟨known', ?_, fun h => hkeep h (hknown h)⟩
  exact congrArg Except.ok hrun

theorem Yields.bind {f : α → Extracting β} {y : α → Except ExtractionFault β} (hm : Yields hs m x)
    (hf : ∀ a, x = .ok a → Yields hs (f a) (y a)) : Yields hs (m >>= f) (x >>= y) := by
  intro known hknown
  obtain ⟨between, hrun, hbetween⟩ := hm known hknown
  rw [StateT.run_bind, hrun]
  cases x with
  | error e => exact ⟨known, rfl, hknown⟩
  | ok a => exact hf a rfl between hbetween

theorem Yields.mapM {f : α → Extracting β} {y : α → Except ExtractionFault β} {xs : List α}
    (h : ∀ x ∈ xs, Yields hs (f x) (y x)) : Yields hs (xs.mapM f) (xs.mapM y) := by
  induction xs with
  | nil => exact yields_pure []
  | cons x rest ih =>
    rw [List.mapM_cons, List.mapM_cons]
    refine (h x List.mem_cons_self).bind fun b _ => ?_
    exact (ih fun x' hx' => h x' (List.mem_cons_of_mem _ hx')).bind fun bs _ => yields_pure _

end

/-! ## Side by side -/

variable {s s' : FactSet} (hs : s.Acyclic) (hs' : s'.Acyclic)

/-- both computations come to one result or fault each, and these are related -/
structure Agree (R : α → β → Prop) (m : Extracting α) (m' : Extracting β) : Prop where
  left : Steady hs m
  right : Steady hs' m'
  outcomes : SameVerdict R (outcome m) (outcome m')

variable {hs hs'} {R : α → β → Prop} {Q : γ → δ → Prop} {m : Extracting α} {m' : Extracting β}

theorem Agree.of_yields {x : Except ExtractionFault α} {x' : Except ExtractionFault β} (hm : Yields hs m x)
    (hm' : Yields hs' m' x') (h : SameVerdict R x x') : Agree hs hs' R m m' := by
  refine ⟨hm.steady, hm'.steady, ?_⟩
  rw [hm.outcome_eq, hm'.outcome_eq]
  exact h

theorem Agree.imp {P : α → β → Prop} (hRP : ∀ a b, R a b → P a b) (h : Agree hs hs' R m m') : Agree hs hs' P m m' :=
  ⟨h.left, h.right, h.outcomes.imp hRP⟩

theorem Agree.symm (h : Agree hs hs' R m m') : Agree hs' hs (fun b a => R a b) m' m :=
  ⟨h.right, h.left, h.outcomes.symm⟩

theorem Agree.trans {s'' : FactSet} {hs'' : s''.Acyclic} {P : β → γ → Prop} {m'' : Extracting γ}
    (h : Agree hs hs' R m m') (h' : Agree hs' hs'' P m' m'') : Agree hs hs'' (fun a c => ∃ b, R a b ∧ P b c) m m'' :=
  ⟨h.left, h'.right, h.outcomes.trans h'.outcomes⟩

theorem Steady.agree {m : Extracting α} (hm : Steady hs m) : Agree hs hs (fun a b => a = b) m m := by
  refine ⟨hm, hm, ?_⟩
  cases outcome m with
  | error e => exact .fault e e
  | ok a => exact .result rfl

theorem agree_pure {a : α} {b : β} (h : R a b) : Agree hs hs' R (pure a) (pure b) :=
  .of_yields (yields_pure a) (yields_pure b) (.result h)

theorem agree_throw (e e' : ExtractionFault) : Agree hs hs' R (throw e) (throw e') :=
  .of_yields (yields_throw e) (yields_throw e') (.fault e e')

/-- a fault may come later -/
theorem agree_throw_bind {P : α → γ → Prop} (e e' : ExtractionFault) (hm : Steady hs' m') :
    Agree hs hs' P (throw e) (m' >>= fun _ => throw e') := by
  have hstop : Yields hs' (m' >>= fun _ => (throw e' : Extracting γ)) (outcome m' >>= fun _ => .error e') :=
    hm.bind fun _ _ => yields_throw e'
  refine .of_yields (yields_throw e) hstop ?_
  cases outcome m' with
  | error e'' => exact .fault e e''
  | ok b => exact .fault e e'

theorem agree_lift (x : Except ExtractionFault α) : Agree hs hs' (fun a b => a = b) (liftM x) (liftM x) := by
  refine .of_yields (yields_lift x) (yields_lift x) ?_
  cases x with
  | error e => exact .fault e e
  | ok a => exact .result rfl

theorem agree_ofResolving {m m' : Resolving α} (h : Resolving.SameAnswer hs hs' m m') :
    Agree hs hs' (fun a b => a = b) (ofResolving m) (ofResolving m') := by
  obtain ⟨a, ha, ha'⟩ := h
  exact .of_yields (yields_ofResolving ha) (yields_ofResolving ha') (.result rfl)

/-- **One step after another.** -/
theorem Agree.bind {f : α → Extracting γ} {f' : β → Extracting δ} (hm : Agree hs hs' R m m')
    (hf : ∀ a b, R a b → Agree hs hs' Q (f a) (f' b)) : Agree hs hs' Q (m >>= f) (m' >>= f') := by
  obtain ⟨hleft, hright, houtcomes⟩ := hm
  unfold Steady at hleft hright
  generalize outcome m = x at hleft houtcomes
  generalize outcome m' = x' at hright houtcomes
  cases houtcomes with
  | fault e e' =>
    have hstop : Yields hs (m >>= f) (.error e) := hleft.bind (y := fun _ => .error e) fun a ha => by cases ha
    have hstop' : Yields hs' (m' >>= f') (.error e') := hright.bind (y := fun _ => .error e') fun b hb => by cases hb
    exact .of_yields hstop hstop' (.fault e e')
  | @result a b h =>
    obtain ⟨hleft', hright', houtcomes'⟩ := hf a b h
    have hgo : Yields hs (m >>= f) (outcome (f a)) := hleft.bind (y := fun _ => outcome (f a)) fun _ ha => by
      cases ha
      exact hleft'
    have hgo' : Yields hs' (m' >>= f') (outcome (f' b)) := hright.bind (y := fun _ => outcome (f' b)) fun _ hb => by
      cases hb
      exact hright'
    exact .of_yields hgo hgo' houtcomes'

theorem Agree.mapM_same {f g : α → Extracting β} {xs : List α}
    (h : ∀ x ∈ xs, Agree hs hs' (fun a b => a = b) (f x) (g x)) :
    Agree hs hs' (fun as bs => as = bs) (xs.mapM f) (xs.mapM g) := by
  induction xs with
  | nil => exact agree_pure rfl
  | cons x rest ih =>
    rw [List.mapM_cons, List.mapM_cons]
    refine (h x List.mem_cons_self).bind ?_
    rintro a _ rfl
    refine (ih fun y hy => h y (List.mem_cons_of_mem _ hy)).bind ?_
    rintro as _ rfl
    exact agree_pure rfl

/-- **A step for each entry.** The entries may come in another order. -/
theorem Agree.mapM {f : α → Extracting γ} {g : β → Extracting δ} {xs : List α} {ys : List β}
    (h : AnyOrder (fun x y => Agree hs hs' Q (f x) (g y)) xs ys) :
    Agree hs hs' (AnyOrder Q) (xs.mapM f) (ys.mapM g) := by
  have hleft : ∀ x ∈ xs, Steady hs (f x) := fun x hx => by
    obtain ⟨y, -, hxy⟩ := h.exists_mem hx
    exact hxy.left
  have hright : ∀ y ∈ ys, Steady hs' (g y) := fun y hy => by
    obtain ⟨x, -, hxy⟩ := h.symm.exists_mem hy
    exact hxy.right
  refine .of_yields (Yields.mapM hleft) (Yields.mapM hright) ?_
  obtain ⟨zs, hperm, halike⟩ := h
  exact (SameVerdict.mapM_perm _ hperm).trans (.mapM (halike.imp fun x y hxy => hxy.outcomes))

end Extracting

end ApiSurface
