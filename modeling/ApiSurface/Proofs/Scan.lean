/-
Checking the entries of a list one by one, each along with those before it.

`scan_eq_error_iff`, `exists_of_scan`: the check stops at the first entry that fails, and those before it pass.
-/
namespace ApiSurface

variable {α ε : Type} (check : List α → α → Except ε Unit)

/-- check entries in order, each along with those before it, up to the first fault -/
def scan : List α → List α → Except ε Unit
  | _, [] => .ok ()
  | before, x :: rest =>
    match check before x with
    | .error fault => .error fault
    | .ok () => scan (before ++ [x]) rest

variable {check}

theorem scan_append (before xs ys : List α) :
    scan check before (xs ++ ys) = scan check before xs >>= fun _ => scan check (before ++ xs) ys := by
  induction xs generalizing before with
  | nil =>
    rw [List.append_nil]
    rfl
  | cons x xs ih =>
    rw [List.cons_append, scan, scan]
    cases check before x with
    | error fault => rfl
    | ok _ =>
      dsimp only
      rw [ih, List.append_assoc, List.singleton_append]

/-- one more entry is checked along with all others -/
theorem scan_concat_eq_ok_iff {before xs : List α} {x : α} :
    scan check before (xs ++ [x]) = .ok () ↔ scan check before xs = .ok () ∧ check (before ++ xs) x = .ok () := by
  have hlast : scan check (before ++ xs) [x] = check (before ++ xs) x := by
    rw [scan]
    cases check (before ++ xs) x <;> rfl
  rw [scan_append, hlast]
  cases scan check before xs with
  | error fault => exact iff_of_false nofun fun h => absurd h.1 nofun
  | ok _ => exact ⟨fun h => ⟨rfl, h⟩, fun h => h.2⟩

/-- a scan that ends has passed each entry -/
theorem check_of_scan {before fewer more : List α} {x : α} (h : scan check before (fewer ++ x :: more) = .ok ()) :
    check (before ++ fewer) x = .ok () := by
  rw [List.append_cons, scan_append] at h
  cases hupTo : scan check before (fewer ++ [x]) with
  | error fault =>
    rw [hupTo] at h
    cases h
  | ok _ => exact (scan_concat_eq_ok_iff.1 hupTo).2

/-- **A scan stops at the first entry that fails.** -/
theorem scan_eq_error_iff {before xs : List α} {fault : ε} : scan check before xs = .error fault ↔
    ∃ passed x rest, xs = passed ++ x :: rest ∧ scan check before passed = .ok () ∧
      check (before ++ passed) x = .error fault := by
  constructor
  · intro h
    induction xs generalizing before with
    | nil => cases h
    | cons x xs ih =>
      rw [scan] at h
      cases hx : check before x with
      | error fault' =>
        rw [hx] at h
        cases h
        exact ⟨[], x, xs, rfl, rfl, by rwa [List.append_nil]⟩
      | ok _ =>
        rw [hx] at h
        obtain ⟨passed, y, rest, rfl, hpassed, hy⟩ := ih h
        refine ⟨x :: passed, y, rest, rfl, ?_, by simpa using hy⟩
        rw [scan, hx]
        exact hpassed
  · rintro ⟨passed, x, rest, rfl, hpassed, hx⟩
    rw [scan_append, hpassed]
    change scan check (before ++ passed) (x :: rest) = .error fault
    rw [scan, hx]

theorem exists_of_scan {before xs : List α} {fault : ε} (h : scan check before xs = .error fault) :
    ∃ passed x rest, xs = passed ++ x :: rest ∧ check (before ++ passed) x = .error fault ∧
      ∀ fewer y more, passed = fewer ++ y :: more → check (before ++ fewer) y = .ok () := by
  obtain ⟨passed, x, rest, hxs, hpassed, hx⟩ := scan_eq_error_iff.1 h
  refine ⟨passed, x, rest, hxs, hx, fun fewer y more hsplit => ?_⟩
  rw [hsplit] at hpassed
  exact check_of_scan hpassed

/-- one place of a list is before another, or they are the same -/
theorem split_cases {xs before after before' after' : List α} {x y : α} (h : xs = before ++ x :: after)
    (h' : xs = before' ++ y :: after') :
    before.length < before'.length ∨ (before = before' ∧ x = y) ∨ ∃ more, before = before' ++ y :: more := by
  rw [h] at h'
  rcases List.append_eq_append_iff.1 h' with ⟨more, hbefore, htail⟩ | ⟨more, hbefore, htail⟩
  · cases more with
    | nil =>
      obtain ⟨rfl, -⟩ := List.cons.inj htail
      exact Or.inr (Or.inl ⟨by rw [hbefore, List.append_nil], rfl⟩)
    | cons z more =>
      refine Or.inl ?_
      rw [hbefore, List.length_append, List.length_cons]
      omega
  · cases more with
    | nil =>
      obtain ⟨rfl, -⟩ := List.cons.inj htail
      exact Or.inr (Or.inl ⟨by rw [hbefore, List.append_nil], rfl⟩)
    | cons z more =>
      obtain ⟨rfl, -⟩ := List.cons.inj htail
      exact Or.inr (Or.inr ⟨more, hbefore⟩)

end ApiSurface
