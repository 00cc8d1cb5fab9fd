/-
What a check for determinism finds.

`firstDeviation_eq`: the runs of a producer end with the first that gives another text, or with the last.
`found?_eq`: the search for a difference of lines, turn by turn, ends with the turn that looks at the line it names.
`locates_firstDifference`: that line is the first in which the texts differ; if none does, the texts have the same lines.
`verify_exact`: these together.
-/
import ApiSurface.Determinism
import ApiSurface.Proofs.Text.Lines

namespace ApiSurface.Determinism

/-! ## Runs -/

/-- the run is the first to give another text than run zero -/
structure FirstOther (produce : Nat → String) (runs run : Nat) : Prop where
  lt : run < runs
  other : produce run ≠ produce 0
  first : ∀ earlier < run, produce earlier = produce 0

/-- **The runs of a producer** all give the reference, or they end with the first that does not. -/
theorem firstDeviation_eq (reference : String) (left run : Nat) (p : Producer) :
    ((∀ i < left, p.outputs (p.calls + i) = reference) ∧
      firstDeviation reference left run p = (none, { p with calls := p.calls + left })) ∨
    ∃ i < left, p.outputs (p.calls + i) ≠ reference ∧ (∀ j < i, p.outputs (p.calls + j) = reference) ∧
      firstDeviation reference left run p =
        (some (run + i, p.outputs (p.calls + i)), { p with calls := p.calls + i + 1 }) := by
  induction left generalizing run p with
  | zero => exact Or.inl ⟨nofun, rfl⟩
  | succ left ih =>
    unfold firstDeviation Producer.call
    dsimp only
    by_cases hsame : p.outputs p.calls = reference
    · rw [if_pos hsame]
      have hnext : ∀ i, p.outputs (p.calls + 1 + i) = p.outputs (p.calls + (i + 1)) := fun i => by
        rw [Nat.add_assoc, Nat.add_comm 1 i]
      rcases ih (run + 1) { p with calls := p.calls + 1 } with ⟨hall, heq⟩ | ⟨i, hi, hother, hearlier, heq⟩
      · refine Or.inl ⟨fun i hi => ?_, by rw [heq]; simp only [Nat.add_assoc, Nat.add_comm 1 left]⟩
        cases i with
        | zero => exact hsame
        | succ i => exact hnext i ▸ hall i (Nat.lt_of_succ_lt_succ hi)
      · refine Or.inr ⟨i + 1, Nat.succ_lt_succ hi, hnext i ▸ hother, fun j hj => ?_, ?_⟩
        · cases j with
          | zero => exact hsame
          | succ j => exact hnext j ▸ hearlier j (Nat.lt_of_succ_lt_succ hj)
        · rw [heq]
          simp only [Nat.add_assoc, Nat.add_comm 1 i]
    · rw [if_neg hsame]
      exact Or.inr ⟨0, Nat.succ_pos left, hsame, nofun, rfl⟩

/-! ## The search for a difference -/

/-- where a search stands: the number of the next line, and the lines that are left of both texts -/
structure Search where
  line : Nat
  expected : List String
  actual : List String

/-- one turn looks at the next line of each text: they differ, or both texts have ended, or the search goes on behind them -/
def Search.turn (run : Nat) (s : Search) : LineDifference ⊕ Search :=
  if s.expected.head? ≠ s.actual.head? ∨ s.expected.head? = none ∧ s.actual.head? = none then
    .inl ⟨s.line, s.expected.head?, s.actual.head?, run⟩
  else .inr ⟨s.line + 1, s.expected.tail, s.actual.tail⟩

/-- what a search has found after some turns -/
def Search.found? (run : Nat) : (turns : Nat) → Search → Option LineDifference
  | 0, _ => none
  | turns + 1, s =>
    match s.turn run with
    | .inl difference => some difference
    | .inr s => found? run turns s

/-- **The place of a difference**: before it both lists of lines have the same, and there they differ, or they are the same
list and end there. -/
theorem exists_place (run line : Nat) (as bs : List String) :
    ∃ i, firstDifference run line as bs = ⟨line + i, as[i]?, bs[i]?, run⟩ ∧
      (∀ j < i, ∃ l, as[j]? = some l ∧ bs[j]? = some l) ∧ (as[i]? ≠ bs[i]? ∨ as = bs ∧ i = as.length) := by
  induction as generalizing line bs with
  | nil =>
    cases bs with
    | nil => exact ⟨0, rfl, nofun, Or.inr ⟨rfl, rfl⟩⟩
    | cons b bs => exact ⟨0, rfl, nofun, Or.inl nofun⟩
  | cons a as ih =>
    cases bs with
    | nil => exact ⟨0, rfl, nofun, Or.inl nofun⟩
    | cons b bs =>
      unfold firstDifference
      by_cases hsame : a = b
      · subst hsame
        obtain ⟨i, heq, hbefore, hplace⟩ := ih (line + 1) bs
        refine ⟨i + 1, ?_, fun j hj => ?_, ?_⟩
        · rw [if_pos rfl, heq, Nat.add_assoc, Nat.add_comm 1 i, List.getElem?_cons_succ, List.getElem?_cons_succ]
        · cases j with
          | zero => exact ⟨a, rfl, rfl⟩
          | succ j => exact hbefore j (Nat.lt_of_succ_lt_succ hj)
        · rcases hplace with hdiffer | ⟨rfl, hend⟩
          · exact Or.inl hdiffer
          · exact Or.inr ⟨rfl, congrArg Nat.succ hend⟩
      · exact ⟨0, if_neg hsame, nofun, Or.inl fun h => hsame (Option.some.inj h)⟩

/-- a search that has not found the difference goes on to the same one -/
theorem firstDifference_eq_turn (run : Nat) (s : Search) :
    firstDifference run s.line s.expected s.actual =
      match s.turn run with
      | .inl difference => difference
      | .inr next => firstDifference run next.line next.expected next.actual := by
  obtain ⟨line, as, bs⟩ := s
  unfold Search.turn
  cases as with
  | nil => cases bs <;> rfl
  | cons a as =>
    cases bs with
    | nil => rfl
    | cons b bs =>
      by_cases hsame : a = b
      · subst hsame
        simp [firstDifference]
      · simp [firstDifference, hsame]

/-- **A search ends** with the turn that looks at the line it names, and not before. -/
theorem found?_eq (run turns : Nat) (s : Search) : s.found? run turns =
    if (firstDifference run s.line s.expected s.actual).line < s.line + turns then
      some (firstDifference run s.line s.expected s.actual) else none := by
  induction turns generalizing s with
  | zero =>
    obtain ⟨i, heq, -⟩ := exists_place run s.line s.expected s.actual
    rw [heq, if_neg (by dsimp only; omega)]
    rfl
  | succ turns ih =>
    rw [Search.found?, firstDifference_eq_turn]
    by_cases hends : s.expected.head? ≠ s.actual.head? ∨ s.expected.head? = none ∧ s.actual.head? = none
    · have hturn : s.turn run = .inl ⟨s.line, s.expected.head?, s.actual.head?, run⟩ := if_pos hends
      rw [hturn]
      dsimp only
      rw [if_pos (by omega)]
    · have hturn : s.turn run = .inr ⟨s.line + 1, s.expected.tail, s.actual.tail⟩ := if_neg hends
      rw [hturn]
      dsimp only
      rw [ih, Nat.add_assoc, Nat.add_comm 1 turns]

/-- the difference is in the first line in which the texts differ; if there is none, the texts have the same lines, and it is
the line after them -/
structure LineDifference.Locates (d : LineDifference) (a b : String) : Prop where
  counted : 1 ≤ d.line
  before : ∀ i, i + 1 < d.line → ∃ line, (Text.lines a)[i]? = some line ∧ (Text.lines b)[i]? = some line
  expected : d.expected = (Text.lines a)[d.line - 1]?
  actual : d.actual = (Text.lines b)[d.line - 1]?
  differs : d.expected ≠ d.actual ∨ d.expected = none ∧ d.actual = none ∧ d.line = (Text.lines a).length + 1 ∧
    d.line = (Text.lines b).length + 1 ∧ Text.SameLines a b

/-- the search through the lines of two texts -/
def Search.start (a b : String) : Search := ⟨1, Text.lines a, Text.lines b⟩

/-- **The search is right and ends.** It finds the first line in which two texts differ with the turn that looks at this line,
and there are no more turns than the text with fewer lines has lines, and one. -/
theorem search_ends (run : Nat) (a b : String) :
    let d := firstDifference run 1 (Text.lines a) (Text.lines b)
    d.Locates a b ∧ d.run = run ∧ d.line ≤ min (Text.lines a).length (Text.lines b).length + 1 ∧
      ∀ turns, (Search.start a b).found? run turns = if d.line ≤ turns then some d else none := by
  intro d
  obtain ⟨i, heq, hbefore, hplace⟩ := exists_place run 1 (Text.lines a) (Text.lines b)
  have hd : d = ⟨1 + i, (Text.lines a)[i]?, (Text.lines b)[i]?, run⟩ := heq
  have hline : d.line = i + 1 := by rw [hd, Nat.add_comm]
  refine ⟨⟨?_, fun j hj => hbefore j (by omega), ?_, ?_, ?_⟩, by rw [hd], ?_, fun turns => ?_⟩
  · omega
  · rw [hline, Nat.add_sub_cancel, hd]
  · rw [hline, Nat.add_sub_cancel, hd]
  · rcases hplace with hdiffer | ⟨hsame, hend⟩
    · rw [hd]
      exact Or.inl hdiffer
    · have hnone : (Text.lines a)[i]? = none := List.getElem?_eq_none (Nat.le_of_eq hend.symm)
      refine Or.inr ⟨by rw [hd, hnone], by rw [hd, ← hsame, hnone], by omega, by rw [← hsame]; omega, ?_⟩
      exact Text.sameLines_iff.2 hsame
  · have hshort : i ≤ (Text.lines a).length ∧ i ≤ (Text.lines b).length := by
      cases i with
      | zero => exact ⟨Nat.zero_le _, Nat.zero_le _⟩
      | succ j =>
        obtain ⟨line, ha, hb⟩ := hbefore j (Nat.lt_succ_self j)
        exact ⟨(List.getElem?_eq_some_iff.1 ha).1, (List.getElem?_eq_some_iff.1 hb).1⟩
    omega
  · have hturns : d.line < 1 + turns ↔ d.line ≤ turns := by omega
    have hfound : (Search.start a b).found? run turns = if d.line < 1 + turns then some d else none := found?_eq _ _ _
    simp only [hfound, hturns]

/-! ## The check -/

/-- what a check gives: the runs all give one text, or one is the first to give another -/
theorem verify_eq (produce : Nat → String) {runs : Nat} (hruns : 2 ≤ runs) :
    ((∀ i < runs, produce i = produce 0) ∧
      verify produce runs = .ok ⟨true, runs, Blake3.hashText (produce 0), none, runs⟩) ∨
    ∃ r, FirstOther produce runs r ∧ verify produce runs = .ok ⟨false, runs, Blake3.hashText (produce 0),
      some (firstDifference r 1 (Text.lines (produce 0)) (Text.lines (produce r))), r + 1⟩ := by
  have hcall : Producer.call ⟨produce, 0⟩ = (produce 0, ⟨produce, 1⟩) := rfl
  unfold verify
  rw [if_neg (by omega), hcall]
  dsimp only
  rcases firstDeviation_eq (produce 0) (runs - 1) 1 ⟨produce, 1⟩ with ⟨hall, heq⟩ | ⟨i, hi, hother, hearlier, heq⟩
  · refine Or.inl ⟨fun i hi => ?_, ?_⟩
    · cases i with
      | zero => rfl
      | succ i => exact Nat.add_comm 1 i ▸ hall i (by omega)
    · have hcalls : 1 + (runs - 1) = runs := by omega
      rw [heq]
      dsimp only
      rw [hcalls]
  · refine Or.inr ⟨1 + i, ⟨by omega, hother, fun j hj => ?_⟩, ?_⟩
    · cases j with
      | zero => rfl
      | succ j => exact Nat.add_comm 1 j ▸ hearlier j (by omega)
    · rw [heq]

/-- **The check finds the first difference.** It calls the producer for all runs when they give one text. Otherwise it calls it
up to the first run that gives another text than run zero, and reports this run with the first line in which the two texts
differ; where no line differs, the texts differ in the endings of lines only, and it reports the line after them. The search for
the line ends for all texts. -/
theorem verify_exact (produce : Nat → String) (runs : Nat) (hruns : 2 ≤ runs) :
    (∃ result, verify produce runs = .ok result ∧
      (result.isDeterministic = true ↔ ∀ i < runs, produce i = produce 0) ∧
      (result.isDeterministic = true → result.calls = runs ∧ result.difference = none) ∧
      (result.isDeterministic = false → ∃ r d, FirstOther produce runs r ∧ result.calls = r + 1 ∧
        result.difference = some d ∧ d.run = r ∧ d.Locates (produce 0) (produce r))) ∧
    ∀ (run : Nat) (a b : String), ∃ turns d, turns ≤ min (Text.lines a).length (Text.lines b).length + 1 ∧
      (Search.start a b).found? run turns = some d ∧ d = firstDifference run 1 (Text.lines a) (Text.lines b) := by
  refine ⟨?_, fun run a b => ?_⟩
  · rcases verify_eq produce hruns with ⟨hall, heq⟩ | ⟨r, hr, heq⟩
    · exact ⟨_, heq, ⟨fun _ => hall, fun _ => rfl⟩, fun _ => ⟨rfl, rfl⟩, nofun⟩
    · obtain ⟨hlocates, hrun, -⟩ := search_ends r (produce 0) (produce r)
      refine ⟨_, heq, ⟨nofun, fun hall => absurd (hall r hr.lt) hr.other⟩, nofun, fun _ => ?_⟩
      exact ⟨r, _, hr, rfl, rfl, hrun, hlocates⟩
  · obtain ⟨-, -, hturns, hfound⟩ := search_ends run a b
    exact ⟨_, _, hturns, (hfound _).trans (if_pos (Nat.le_refl _)), rfl⟩

/-- two runs with one text, and then the same lines with other endings: the line after them is reported, after three calls -/
theorem verify_exact_endings :
    let produce : Nat → String := fun i => if i < 2 then "a\r\nb" else "a\nb\n"
    2 ≤ 4 ∧ ∃ result, verify produce 4 = .ok result ∧ result.isDeterministic = false ∧ result.calls = 3 ∧
      result.difference = some ⟨3, none, none, 2⟩ := by
  intro produce
  have hruns : 2 ≤ 4 := by decide
  obtain ⟨⟨result, hresult, hall, -, hdiffers⟩, -⟩ := verify_exact produce 4 hruns
  have hfalse : result.isDeterministic = false :=
    Bool.eq_false_iff.2 fun htrue => absurd (hall.1 htrue 2 (by decide)) (by decide)
  obtain ⟨r, d, hr, hcalls, hdifference, hrun, hlocates⟩ := hdiffers hfalse
  have htwo : r = 2 := by
    have hleast : ¬2 < r := fun h => absurd (hr.first 2 h) (by decide)
    have hlater : ¬r < 2 := fun h => hr.other (if_pos h)
    omega
  subst htwo
  have hlines : Text.lines (produce 2) = Text.lines (produce 0) := by decide
  have hsame : d.expected = d.actual := by rw [hlocates.expected, hlocates.actual, hlines]
  rcases hlocates.differs with hother | ⟨hexpected, hactual, hline, -, -⟩
  · exact absurd hsame hother
  · obtain ⟨line, expected, actual, run⟩ := d
    have hthree : (Text.lines (produce 0)).length + 1 = 3 := by decide
    refine ⟨hruns, result, hresult, hfalse, hcalls, hdifference.trans ?_⟩
    rw [hthree] at hline
    dsimp only at hexpected hactual hline hrun
    rw [hexpected, hactual, hline, hrun]

end ApiSurface.Determinism
