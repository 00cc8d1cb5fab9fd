/-
Writing a floating-point number with the fewest decimal digits that read back, and of those with the nearest.

The numbers that round to `d` form an interval around it, whose ends belong to it when the significand is even. For one
digit, two digits and so on, the two neighbours of `d` on the grid of that many digits are tried; the first grid with a
neighbour inside the interval gives the digits. Where positional notation ends and which way an exact tie goes is the
choice of a `Layout`.
-/
import ApiSurface.Double.Basic

namespace ApiSurface.Double

/-! ## Digits -/

/-- which neighbour wins when both are equally near -/
inductive Tie where
  | toEven
  | up
deriving DecidableEq, Repr

/-- `num / den` lies in `[10 ^ e, 10 ^ (e + 1))` for this `e` -/
def decimalExponent (num den : Nat) : Int :=
  if den ≤ num then ((num / den).repr.length : Int) - 1
  else -(((den - 1) / num).repr.length : Int)

def quarters (d : Double) : Nat := 4 * d.significand

/-- the lower end of the interval that rounds to `d`, in quarters; it is nearer below a power of two -/
def lowerEnd (d : Double) : Nat :=
  if d.significand = hiddenBit ∧ 1 < d.exponentField then d.quarters - 1 else d.quarters - 2

/-- the upper end of the interval that rounds to `d`, in quarters -/
def upperEnd (d : Double) : Nat := d.quarters + 2

/-- `n` quarters of the last place of `d`, on the scale that compares with `onGrid d k` -/
def onPlace (d : Double) (k : Int) (n : Nat) : Nat :=
  n * Nat.pow 2 (d.power - 2).toNat * Nat.pow 10 (-k).toNat

/-- `c * 10 ^ k`, on the scale that compares with `onPlace d k` -/
def onGrid (d : Double) (k : Int) (c : Nat) : Nat :=
  c * Nat.pow 10 k.toNat * Nat.pow 2 (2 - d.power).toNat

/-- `c * 10 ^ k` rounds to `d` -/
def rounds (d : Double) (k : Int) (c : Nat) : Bool :=
  let low := d.onPlace k d.lowerEnd
  let high := d.onPlace k d.upperEnd
  let value := d.onGrid k c
  if d.significand % 2 = 0 then decide (low ≤ value ∧ value ≤ high) else decide (low < value ∧ value < high)

/-- the neighbour of `d` among the multiples of `10 ^ k` that rounds to it, the nearer one if both do -/
def neighbour? (tie : Tie) (d : Double) (k : Int) : Option Nat :=
  let value := d.onPlace k d.quarters
  let below := value / d.onGrid k 1
  let above := below + 1
  match d.rounds k below, d.rounds k above with
  | false, false => none
  | true, false => some below
  | false, true => some above
  | true, true =>
    let down := value - d.onGrid k below
    let up := d.onGrid k above - value
    if down < up then some below
    else if up < down then some above
    else match tie with
      | .up => some above
      | .toEven => some (if below % 2 = 0 then below else above)

/-- the digits of a number without trailing zeros, and the exponent of the first -/
structure Digits where
  digits : List Char
  exponent : Int
deriving DecidableEq, Repr

/-- the fewest digits that read back as the magnitude of `d`; seventeen always do -/
def shortest (tie : Tie) (d : Double) : Digits :=
  let top := decimalExponent d.ratio.1 d.ratio.2
  let found := (List.range 17).findSome? fun (n : Nat) => (d.neighbour? tie (top - n)).map fun c => (c, top - n)
  let (c, k) := found.getD (0, 0)
  let digits := Nat.toDigits 10 c
  ⟨(digits.reverse.dropWhile (· == '0')).reverse, k + digits.length - 1⟩

/-! ## Layouts -/

/-- where positional notation begins and ends, and how an exponent is written -/
structure Layout where
  /-- the least exponent written positionally -/
  least : Int
  /-- the greatest exponent written positionally -/
  greatest : Int
  /-- a positive exponent has a plus sign -/
  plus : Bool
  tie : Tie
deriving DecidableEq, Repr

/-- positional notation, with at least one digit on each side of the point -/
def Digits.positional (x : Digits) : String :=
  let point := x.exponent + 1
  if point ≤ 0 then "0." ++ String.ofList (List.replicate (-point).toNat '0' ++ x.digits)
  else
    let whole := x.digits.take point.toNat ++ List.replicate (point.toNat - x.digits.length) '0'
    let part := x.digits.drop point.toNat
    String.ofList whole ++ "." ++ String.ofList (if part.isEmpty then ['0'] else part)

/-- one digit before the point, then the exponent -/
def Digits.scientific (x : Digits) (plus : Bool) : String :=
  let part := x.digits.drop 1
  let sign := if x.exponent < 0 then "-" else if plus then "+" else ""
  String.ofList (x.digits.take 1) ++ (if part.isEmpty then "" else "." ++ String.ofList part) ++
    "e" ++ sign ++ x.exponent.natAbs.repr

def Layout.magnitude (l : Layout) (d : Double) : String :=
  if d.isZero then "0.0"
  else
    let x := d.shortest l.tie
    if l.least ≤ x.exponent ∧ x.exponent ≤ l.greatest then x.positional else x.scientific l.plus

def Layout.render (l : Layout) (d : Double) : String :=
  if d.isNaN then "NaN"
  else (if d.negative then "-" else "") ++ (if d.isFinite then l.magnitude d else "inf")

end ApiSurface.Double
