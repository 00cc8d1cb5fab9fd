/-
Floating-point numbers of 64 bits, held by their bit pattern, so equality is equality of patterns: the two zeros differ
and a NaN equals itself. A finite pattern of positive sign stands for `significand * 2 ^ power`.
-/
namespace ApiSurface

/-- a floating-point number: sign bit, 11 exponent bits, 52 fraction bits -/
structure Double where
  bits : UInt64
deriving DecidableEq, Repr, Inhabited

namespace Double

/-! ## The parts of a pattern -/

/-- the significand's highest bit, which a pattern leaves out: 2^52 -/
def hiddenBit : Nat := Nat.pow 2 52

def negative (d : Double) : Bool := decide (UInt64.size ≤ 2 * d.bits.toNat)

def exponentField (d : Double) : Nat := d.bits.toNat / hiddenBit % 2048

def fraction (d : Double) : Nat := d.bits.toNat % hiddenBit

def isFinite (d : Double) : Bool := decide (d.exponentField ≠ 2047)

def isNaN (d : Double) : Bool := !d.isFinite && decide (d.fraction ≠ 0)

/-- the pattern of one of the two zeros -/
def isZero (d : Double) : Bool := decide (d.exponentField = 0 ∧ d.fraction = 0)

/-- the integer that `2 ^ power` scales; subnormal patterns have no hidden bit -/
def significand (d : Double) : Nat :=
  if d.exponentField = 0 then d.fraction else hiddenBit + d.fraction

/-- the power of two that scales the significand -/
def power (d : Double) : Int := (max 1 d.exponentField : Nat) - 1075

/-! ## Building patterns -/

def zero : Double := ⟨0⟩

def infinity : Double := ⟨0x7FF0000000000000⟩

/-- the same magnitude with the other sign -/
def neg (d : Double) : Double := ⟨d.bits ^^^ 0x8000000000000000⟩

/-- the magnitude of a finite number as a fraction -/
def ratio (d : Double) : Nat × Nat :=
  (d.significand * Nat.pow 2 d.power.toNat, Nat.pow 2 (-d.power).toNat)

end Double

end ApiSurface
