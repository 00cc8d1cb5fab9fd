/-
Texts that come apart in one way only.

A closed text has its brackets paired, blanks in angle brackets only and commas in brackets only; names of types are
such. Where closed texts stand in a row, each followed by a blank or by a comma, every reader finds the same borders:
- `Closed.cut`: one closed text before a blank, a comma or the end;
- `spaced_cut`: words with a blank after each, up to a word of a kind that none before it is of;
- `spaced_last`: words with a blank after each, and a last one;
- `joined_cut`: a list with commas between.
-/
import Mathlib.Data.List.Basic

namespace ApiSurface.Text

/-! ## Closed texts -/

/-- how many angle and square brackets are open, each kind counted by itself -/
structure Depth where
  angle : Nat
  square : Nat
deriving DecidableEq, Repr

/-- outside all brackets -/
def Depth.outside : Depth := ⟨0, 0⟩

/-- the depth after a character; none for a bracket that closes nothing, a blank outside angle brackets or a comma
outside brackets -/
def Depth.step (d : Depth) (c : Char) : Option Depth :=
  if c = '<' then some { d with angle := d.angle + 1 }
  else if c = '>' then if d.angle = 0 then none else some { d with angle := d.angle - 1 }
  else if c = '[' then some { d with square := d.square + 1 }
  else if c = ']' then if d.square = 0 then none else some { d with square := d.square - 1 }
  else if c = ' ' then if d.angle = 0 then none else some d
  else if c = ',' then if d = .outside then none else some d
  else some d

/-- brackets are paired, blanks stand in angle brackets and commas in brackets -/
def Closed (text : List Char) : Prop := text.foldlM Depth.step .outside = some .outside

instance (text : List Char) : Decidable (Closed text) :=
  inferInstanceAs (Decidable (text.foldlM Depth.step .outside = some .outside))

/-- a text that ends, or goes on with a blank or a comma -/
def Ends : List Char → Prop
  | [] => True
  | c :: _ => c = ' ' ∨ c = ','

theorem ends_nil : Ends [] := trivial

theorem ends_blank (rest : List Char) : Ends (' ' :: rest) := Or.inl rfl

theorem ends_comma (rest : List Char) : Ends (',' :: rest) := Or.inr rfl

theorem step_outside_of_ends {c : Char} (h : c = ' ' ∨ c = ',') : Depth.step .outside c = none := by
  rcases h with rfl | rfl <;> rfl

/-- what is closed from some depth on cannot go on where another text ends -/
theorem foldlM_step_cut {d : Depth} {u v x y : List Char} (hu : u.foldlM Depth.step d = some .outside)
    (hv : v.foldlM Depth.step d = some .outside) (hx : Ends x) (hy : Ends y) (h : u ++ x = v ++ y) :
    u = v ∧ x = y := by
  induction u generalizing d v with
  | nil =>
    cases v with
    | nil => exact ⟨rfl, h⟩
    | cons c v =>
      rw [List.foldlM_nil] at hu
      cases hu
      rw [List.nil_append, List.cons_append] at h
      subst h
      rw [List.foldlM_cons, step_outside_of_ends hx] at hv
      cases hv
  | cons c u ih =>
    cases v with
    | nil =>
      rw [List.foldlM_nil] at hv
      cases hv
      rw [List.nil_append, List.cons_append] at h
      subst h
      rw [List.foldlM_cons, step_outside_of_ends hy] at hu
      cases hu
    | cons c' v =>
      rw [List.cons_append, List.cons_append, List.cons.injEq] at h
      obtain ⟨rfl, h⟩ := h
      rw [List.foldlM_cons] at hu hv
      cases hs : d.step c with
      | none => rw [hs] at hu; cases hu
      | some d' =>
        rw [hs] at hu hv
        obtain ⟨rfl, hxy⟩ := ih hu hv h
        exact ⟨rfl, hxy⟩

/-- **A closed text is cut in one way** before a blank, a comma or the end. -/
theorem Closed.cut {u v x y : List Char} (hu : Closed u) (hv : Closed v) (hx : Ends x) (hy : Ends y)
    (h : u ++ x = v ++ y) : u = v ∧ x = y :=
  foldlM_step_cut hu hv hx hy h

theorem closed_nil : Closed [] := rfl

/-! ## Words in a row -/

/-- words with a blank after each -/
def spaced (words : List (List Char)) : List Char := words.flatMap fun w => w ++ [' ']

theorem spaced_cons (w : List Char) (words : List (List Char)) : spaced (w :: words) = w ++ ' ' :: spaced words := by
  simp [spaced]

theorem spaced_append (us vs : List (List Char)) : spaced (us ++ vs) = spaced us ++ spaced vs := by
  simp [spaced]

theorem map_toList_inj {us vs : List String} (h : us.map String.toList = vs.map String.toList) : us = vs :=
  (List.map_injective_iff.2 fun _ _ => String.toList_inj.1) h

theorem not_mem_spaced {c : Char} (hc : c ≠ ' ') {words : List (List Char)} (h : ∀ w ∈ words, c ∉ w) :
    c ∉ spaced words := by
  intro hmem
  obtain ⟨w, hw, hmem⟩ := List.mem_flatMap.1 hmem
  rcases List.mem_append.1 hmem with hmem | hmem
  · exact h w hw hmem
  · exact hc (List.mem_singleton.1 hmem)

/-- words of one kind before words of the other come apart in one way -/
theorem split_inj {α : Type} {p : α → Prop} {us vs us' vs' : List α} (hus : ∀ u ∈ us, p u) (hvs : ∀ v ∈ vs, ¬p v)
    (hus' : ∀ u ∈ us', p u) (hvs' : ∀ v ∈ vs', ¬p v) (h : us ++ vs = us' ++ vs') : us = us' ∧ vs = vs' := by
  induction us generalizing us' with
  | nil =>
    cases us' with
    | nil => exact ⟨rfl, h⟩
    | cons u' us' =>
      rw [List.nil_append] at h
      exact absurd (hus' u' List.mem_cons_self) (hvs u' (h ▸ List.mem_cons_self))
  | cons u us ih =>
    rw [List.forall_mem_cons] at hus
    obtain ⟨hu, hus⟩ := hus
    cases us' with
    | nil =>
      rw [List.nil_append] at h
      exact absurd hu (hvs' u (h ▸ List.mem_cons_self))
    | cons u' us' =>
      obtain ⟨rfl, htail⟩ := List.cons.inj h
      obtain ⟨rfl, hrest⟩ := ih hus (List.forall_mem_cons.1 hus').2 htail
      exact ⟨rfl, hrest⟩

/-- texts with a blank between, seen from one of them -/
theorem intercalate_blank (words : List (List Char)) (w : List Char) (rest : List (List Char)) :
    List.intercalate [' '] (words ++ w :: rest) = spaced words ++ (w ++ rest.flatMap fun r => ' ' :: r) := by
  induction words with
  | nil =>
    induction rest generalizing w with
    | nil => simp [spaced]
    | cons r rest ih =>
      have h := ih r
      rw [List.nil_append] at h
      rw [List.nil_append, List.intercalate_cons_cons, h]
      simp [spaced]
  | cons v words ih =>
    rw [List.cons_append, List.intercalate_cons_of_ne_nil (List.append_ne_nil_of_right_ne_nil _ (List.cons_ne_nil _ _)),
      ih, spaced_cons]
    simp

/-- words up to the first of a kind, whatever follows it -/
theorem spaced_cut {P : List Char → Prop} {us vs : List (List Char)} {k l x y : List Char}
    (hus : ∀ u ∈ us, Closed u ∧ ¬P u) (hvs : ∀ v ∈ vs, Closed v ∧ ¬P v) (hk : Closed k ∧ P k) (hl : Closed l ∧ P l)
    (h : spaced us ++ (k ++ ' ' :: x) = spaced vs ++ (l ++ ' ' :: y)) : us = vs ∧ k = l ∧ x = y := by
  induction us generalizing vs with
  | nil =>
    cases vs with
    | nil =>
      obtain ⟨hkl, hxy⟩ := hk.1.cut hl.1 (ends_blank _) (ends_blank _) h
      exact ⟨rfl, hkl, (List.cons.inj hxy).2⟩
    | cons v vs =>
      have hv := hvs v List.mem_cons_self
      rw [spaced_cons, List.append_assoc, List.cons_append] at h
      obtain ⟨rfl, -⟩ := hk.1.cut hv.1 (ends_blank _) (ends_blank _) h
      exact absurd hk.2 hv.2
  | cons u us ih =>
    rw [List.forall_mem_cons] at hus
    obtain ⟨hu, hus⟩ := hus
    cases vs with
    | nil =>
      rw [spaced_cons, List.append_assoc, List.cons_append] at h
      obtain ⟨rfl, -⟩ := hu.1.cut hl.1 (ends_blank _) (ends_blank _) h
      exact absurd hl.2 hu.2
    | cons v vs =>
      rw [List.forall_mem_cons] at hvs
      obtain ⟨hv, hvs⟩ := hvs
      rw [spaced_cons, spaced_cons, List.append_assoc, List.append_assoc, List.cons_append, List.cons_append] at h
      obtain ⟨rfl, hrest⟩ := hu.1.cut hv.1 (ends_blank _) (ends_blank _) h
      obtain ⟨rfl, hkl⟩ := ih hus hvs (List.cons.inj hrest).2
      exact ⟨rfl, hkl⟩

/-- words and a last one, with which the text ends -/
theorem spaced_last {us vs : List (List Char)} {k l : List Char} (hus : ∀ u ∈ us, Closed u) (hvs : ∀ v ∈ vs, Closed v)
    (hk : Closed k) (hl : Closed l) (h : spaced us ++ k = spaced vs ++ l) : us = vs ∧ k = l := by
  induction us generalizing vs with
  | nil =>
    cases vs with
    | nil => exact ⟨rfl, h⟩
    | cons v vs =>
      rw [spaced_cons, List.append_assoc, List.cons_append] at h
      have h' : k ++ [] = v ++ ' ' :: (spaced vs ++ l) := by rw [List.append_nil]; exact h
      cases (hk.cut (hvs v List.mem_cons_self) ends_nil (ends_blank _) h').2
  | cons u us ih =>
    rw [List.forall_mem_cons] at hus
    obtain ⟨hu, hus⟩ := hus
    cases vs with
    | nil =>
      rw [spaced_cons, List.append_assoc, List.cons_append] at h
      have h' : u ++ ' ' :: (spaced us ++ k) = l ++ [] := by rw [List.append_nil]; exact h
      cases (hu.cut hl (ends_blank _) ends_nil h').2
    | cons v vs =>
      rw [List.forall_mem_cons] at hvs
      obtain ⟨hv, hvs⟩ := hvs
      rw [spaced_cons, spaced_cons, List.append_assoc, List.append_assoc, List.cons_append, List.cons_append] at h
      obtain ⟨rfl, hrest⟩ := hu.cut hv (ends_blank _) (ends_blank _) h
      obtain ⟨rfl, hkl⟩ := ih hus hvs (List.cons.inj hrest).2
      exact ⟨rfl, hkl⟩

/-! ## Lists -/

/-- what holds of texts and of the separator holds of the texts put together, if it holds of a text and another one -/
theorem intercalate_of_append {P : List Char → Prop} (hnil : P []) (happend : ∀ u v, P u → P v → P (u ++ v))
    {separator : String} (hseparator : P separator.toList) {texts : List String} (h : ∀ s ∈ texts, P s.toList) :
    P (String.intercalate separator texts).toList := by
  induction texts with
  | nil => exact hnil
  | cons s rest ih =>
    obtain ⟨hs, hrest⟩ := List.forall_mem_cons.1 h
    by_cases hempty : rest = []
    · rw [hempty, String.intercalate_singleton]
      exact hs
    · rw [String.intercalate_cons_of_ne_nil hempty, String.toList_append, String.toList_append]
      exact happend _ _ (happend _ _ hs hseparator) (ih hrest)

/-- words with dots between are not empty, and have no marks but dots -/
theorem dots_between {marks : List Char} {words : List String} (hne : words ≠ [])
    (hwords : ∀ w ∈ words, w ≠ "" ∧ ∀ c ∈ w.toList, c ∉ marks) :
    String.intercalate "." words ≠ "" ∧ ∀ c ∈ (String.intercalate "." words).toList, c = '.' ∨ c ∉ marks := by
  refine ⟨?_, intercalate_of_append (P := fun text => ∀ c ∈ text, c = '.' ∨ c ∉ marks) (List.forall_mem_nil _) ?_ ?_ ?_⟩
  · obtain ⟨w, rest, rfl⟩ := List.exists_cons_of_ne_nil hne
    have hw := (hwords w List.mem_cons_self).1
    cases rest with
    | nil => simpa using hw
    | cons w' rest => simp [hw]
  · intro u v hu hv c hc
    exact (List.mem_append.1 hc).elim (hu c) (hv c)
  · exact fun c hc => Or.inl (List.mem_singleton.1 hc)
  · exact fun w hw c hc => Or.inr ((hwords w hw).2 c hc)

/-- texts with a comma and a blank between -/
def joined (items : List (List Char)) : List Char := List.intercalate [',', ' '] items

theorem joined_singleton (a : List Char) : joined [a] = a := List.intercalate_singleton

theorem joined_cons_cons (a b : List Char) (items : List (List Char)) :
    joined (a :: b :: items) = a ++ ',' :: ' ' :: joined (b :: items) := by
  simp [joined, List.intercalate_cons_cons]

theorem joined_cons (a : List Char) (items : List (List Char)) :
    joined (a :: items) = a ++ items.flatMap fun b => ',' :: ' ' :: b := by
  induction items generalizing a with
  | nil => rw [joined_singleton, List.flatMap_nil, List.append_nil]
  | cons b items ih =>
    rw [joined_cons_cons, ih]
    rfl

/-- a text that ends, or goes on with a blank -/
def EndsBlank : List Char → Prop
  | [] => True
  | c :: _ => c = ' '

theorem EndsBlank.ends {x : List Char} (h : EndsBlank x) : Ends x := by
  cases x with
  | nil => trivial
  | cons c x => exact Or.inl h

/-- a list is cut in one way before a blank or the end -/
theorem joined_cut {us vs : List (List Char)} {x y : List Char} (hne : us ≠ []) (hne' : vs ≠ [])
    (hus : ∀ u ∈ us, Closed u) (hvs : ∀ v ∈ vs, Closed v) (hx : EndsBlank x) (hy : EndsBlank y)
    (h : joined us ++ x = joined vs ++ y) : us = vs ∧ x = y := by
  -- after the first item a list of one goes on with a blank or ends, a longer one with a comma
  induction us generalizing vs with
  | nil => exact absurd rfl hne
  | cons u us ih =>
    cases vs with
    | nil => exact absurd rfl hne'
    | cons v vs =>
      rw [List.forall_mem_cons] at hus hvs
      obtain ⟨hu, hus⟩ := hus
      obtain ⟨hv, hvs⟩ := hvs
      cases us with
      | nil =>
        cases vs with
        | nil =>
          rw [joined_singleton, joined_singleton] at h
          obtain ⟨rfl, hxy⟩ := hu.cut hv hx.ends hy.ends h
          exact ⟨rfl, hxy⟩
        | cons v' vs =>
          rw [joined_singleton, joined_cons_cons, List.append_assoc, List.cons_append] at h
          rw [(hu.cut hv hx.ends (ends_comma _) h).2] at hx
          cases hx
      | cons u' us =>
        cases vs with
        | nil =>
          rw [joined_singleton, joined_cons_cons, List.append_assoc, List.cons_append] at h
          rw [← (hu.cut hv (ends_comma _) hy.ends h).2] at hy
          cases hy
        | cons v' vs =>
          rw [joined_cons_cons, joined_cons_cons, List.append_assoc, List.append_assoc, List.cons_append,
            List.cons_append, List.cons_append, List.cons_append] at h
          obtain ⟨rfl, hrest⟩ := hu.cut hv (ends_comma _) (ends_comma _) h
          have htail := (List.cons.inj (List.cons.inj hrest).2).2
          obtain ⟨htails, hxy⟩ := ih (List.cons_ne_nil _ _) (List.cons_ne_nil _ _) hus hvs htail
          exact ⟨by rw [htails], hxy⟩

/-! ## Texts without some characters -/

/-- a text that goes on with one of some characters -/
def Begins (p : Char → Prop) : List Char → Prop
  | [] => False
  | c :: _ => p c

/-- a run of characters of one kind is cut in one way where no other one follows -/
theorem cut_run {p : Char → Prop} {u v x y : List Char} (hu : ∀ c ∈ u, p c) (hv : ∀ c ∈ v, p c)
    (hx : ∀ c ∈ x.head?, ¬p c) (hy : ∀ c ∈ y.head?, ¬p c) (h : u ++ x = v ++ y) : u = v ∧ x = y := by
  induction u generalizing v with
  | nil =>
    cases v with
    | nil => exact ⟨rfl, h⟩
    | cons b v =>
      rw [List.nil_append, List.cons_append] at h
      subst h
      exact absurd (hv b List.mem_cons_self) (hx b rfl)
  | cons a u ih =>
    rw [List.forall_mem_cons] at hu
    obtain ⟨ha, hu⟩ := hu
    cases v with
    | nil =>
      rw [List.nil_append, List.cons_append] at h
      subst h
      exact absurd ha (hy a rfl)
    | cons b v =>
      obtain ⟨rfl, hrest⟩ := List.cons.inj h
      obtain ⟨rfl, hxy⟩ := ih hu (List.forall_mem_cons.1 hv).2 hrest
      exact ⟨rfl, hxy⟩

/-- a text is cut in one way before the first of some characters -/
theorem cut_before {p : Char → Prop} {u v x y : List Char} (hu : ∀ c ∈ u, ¬p c) (hv : ∀ c ∈ v, ¬p c) (hx : Begins p x)
    (hy : Begins p y) (h : u ++ x = v ++ y) : u = v ∧ x = y := by
  have hstop : ∀ {z : List Char}, Begins p z → ∀ c ∈ z.head?, ¬¬p c := by
    intro z hz c hc
    cases z with
    | nil => cases hc
    | cons d z =>
      cases hc
      exact not_not_intro hz
  exact cut_run hu hv (hstop hx) (hstop hy) h

/-- a text is cut in one way at the first occurrence of a character -/
theorem cut_at {c : Char} {u v x y : List Char} (hu : c ∉ u) (hv : c ∉ v) (h : u ++ c :: x = v ++ c :: y) :
    u = v ∧ x = y := by
  have hbegins : ∀ rest : List Char, Begins (fun b => b = c) (c :: rest) := fun _ => rfl
  have hfree : ∀ {w : List Char}, c ∉ w → ∀ b ∈ w, ¬b = c := fun hw b hb hbc => hw (hbc ▸ hb)
  obtain ⟨huv, hxy⟩ := cut_before (hfree hu) (hfree hv) (hbegins x) (hbegins y) h
  exact ⟨huv, (List.cons.inj hxy).2⟩

end ApiSurface.Text
