/-
Rounding to the nearest floating-point number, a half to the even neighbour, and the reading of decimals built on it.

A decimal is read in steps that each round once: its digits as one integer, then powers of ten that scale it, at most
`10 ^ 308` a step. The result can differ from the number nearest to the decimal in its last bit.
-/
import ApiSurface.Double.Basic

namespace ApiSurface.Double

/-! ## Rounding a fraction -/

/-- `num / den` as an integer, a half to the even neighbour -/
def roundEven (num den : Nat) : Nat :=
  let q := num / den
  let r := num % den
  if 2 * r < den then q
  else if den < 2 * r then q + 1
  else if q % 2 = 0 then q else q + 1

/-- the power of two under which `num / den` has 53 binary digits, or the least power there is -/
def powerFor (num den : Nat) : Int :=
  let low : Int := (num.log2 : Int) - (den.log2 : Int) - 53
  let whole := num * Nat.pow 2 (-low).toNat / (den * Nat.pow 2 low.toNat)
  max (-1074) (if whole < 2 * hiddenBit then low else low + 1)

/-- the number nearest to `num / den`, infinite when none is near -/
def nearest (num den : Nat) : Double :=
  if num = 0 then zero
  else
    let power := powerFor num den
    let units := roundEven (num * Nat.pow 2 (-power).toNat) (den * Nat.pow 2 power.toNat)
    let pattern := (power + 1074).toNat * hiddenBit + units
    if pattern < 2047 * hiddenBit then ⟨UInt64.ofNat pattern⟩ else infinity

/-- the rounded product of two magnitudes -/
def times (a b : Double) : Double :=
  nearest (a.ratio.1 * b.ratio.1) (a.ratio.2 * b.ratio.2)

/-- the rounded quotient of two magnitudes -/
def dividedBy (a b : Double) : Double :=
  nearest (a.ratio.1 * b.ratio.2) (a.ratio.2 * b.ratio.1)

/-! ## Reading a decimal -/

def tenTo (k : Nat) : Double := nearest (Nat.pow 10 k) 1

/-- `d * 10 ^ k`, or nothing when that is too large -/
def scaleUp (d : Double) (k : Nat) : Option Double :=
  if k ≤ 308 then
    let scaled := d.times (tenTo k)
    if scaled.isFinite then some scaled else none
  else if d.isZero then some d else none

/-- `d / 10 ^ k`, in steps of at most `10 ^ 308` -/
def scaleDown (d : Double) (k : Nat) : Double :=
  if k ≤ 308 then d.dividedBy (tenTo k)
  else if d.isZero then d
  else scaleDown (d.dividedBy (tenTo 308)) (k - 308)
termination_by k

/-- the number that `digits * 10 ^ exponent` is read as, or nothing when it is too large -/
def ofDecimal? (digits : Nat) (exponent : Int) : Option Double :=
  let whole := nearest digits 1
  if 0 ≤ exponent then whole.scaleUp exponent.toNat
  else some (whole.scaleDown (-exponent).toNat)

end ApiSurface.Double
