/-
Checking that a producer of texts gives the same text each time. The first run is the reference; the check ends at the
first run that differs, with the first line in which it does.
-/
import ApiSurface.Hash.Blake3
import ApiSurface.Text.Lines

namespace ApiSurface.Determinism

/-- the first line in which two texts differ -/
structure LineDifference where
  /-- counted from one -/
  line : Nat
  /-- absent when the reference has ended -/
  expected : Option String
  /-- absent when the other text has ended -/
  actual : Option String
  /-- the run that differs, the reference being run zero -/
  run : Nat
deriving DecidableEq, Repr

/-- a line, or what stands for its absence -/
def shownLine : Option String → String
  | some line => line
  | none => "<end of output>"

/-- the difference as a message shows it -/
def LineDifference.message (d : LineDifference) : String :=
  "Difference at line " ++ d.line.repr ++ " (run " ++ d.run.repr ++ "):\n  expected: " ++ shownLine d.expected ++
    "\n  actual:   " ++ shownLine d.actual

structure Result where
  isDeterministic : Bool
  /-- the number of runs asked for -/
  runs : Nat
  /-- the hash of the reference -/
  hash : String
  difference : Option LineDifference
  /-- how often the producer ran -/
  calls : Nat
deriving DecidableEq, Repr

/-- the first place where two lists of lines differ, from a line number on; where neither does, the place after both -/
def firstDifference (run : Nat) : Nat → List String → List String → LineDifference
  | line, [], [] => ⟨line, none, none, run⟩
  | line, a :: _, [] => ⟨line, some a, none, run⟩
  | line, [], b :: _ => ⟨line, none, some b, run⟩
  | line, a :: as, b :: bs =>
    if a = b then firstDifference run (line + 1) as bs else ⟨line, some a, some b, run⟩

/-! ## Running a producer -/

/-- a producer of texts: call number `i` gives `outputs i` -/
structure Producer where
  outputs : Nat → String
  /-- how often it has been called -/
  calls : Nat

/-- call the producer once more -/
def Producer.call (p : Producer) : String × Producer := (p.outputs p.calls, { p with calls := p.calls + 1 })

/-- call the producer for the runs from `run` on, at most `left` of them, up to the first text that is not the reference -/
def firstDeviation (reference : String) : (left run : Nat) → Producer → Option (Nat × String) × Producer
  | 0, _, p => (none, p)
  | left + 1, run, p =>
    let (output, p) := p.call
    if output = reference then firstDeviation reference left (run + 1) p else (some (run, output), p)

/-- a check needs two runs -/
def tooFewRuns : String := "Must run at least 2 times to verify determinism"

/-- run a producer several times; call number `i` gives `produce i` -/
def verify (produce : Nat → String) (runs : Nat) : Except String Result :=
  if runs < 2 then .error tooFewRuns
  else
    let (reference, p) := Producer.call ⟨produce, 0⟩
    let hash := Blake3.hashText reference
    match firstDeviation reference (runs - 1) 1 p with
    | (none, p) => .ok ⟨true, runs, hash, none, p.calls⟩
    | (some (run, output), p) =>
      let difference := firstDifference run 1 (Text.lines reference) (Text.lines output)
      .ok ⟨false, runs, hash, some difference, p.calls⟩

end ApiSurface.Determinism
