import TraitFactory.Number.Double

/-!
# Order of numbers

Floating-point numbers and whole numbers are compared by what they stand for, without rounding
either. What is not a number comes neither before nor after any other.
-/

namespace TraitFactory

namespace Double

open Number (pow2)

/-- The whole number that a finite double is, in units of a power of two. -/
def signed (x : Double) : Int := if x.isNegative then -(x.significand : Int) else x.significand

/-- The order of a finite double and a whole number. -/
def compareFinite (x : Double) (n : Int) : Ordering :=
  if 0 ≤ x.exponent then compare (x.signed * pow2 x.exponent.toNat) n
  else compare x.signed (n * pow2 (-x.exponent).toNat)

/-- **The order of a double and a whole number.** -/
def compareInt? (x : Double) (n : Int) : Option Ordering :=
  if x.isNaN then none
  else if x.isFinite then some (x.compareFinite n)
  else some (if x.isNegative then .lt else .gt)

/-- **The order of two doubles.** -/
def compare? (x y : Double) : Option Ordering :=
  if x.isNaN || y.isNaN then none
  else if x.sameNumber y then some .eq
  else some (if x.toFloat < y.toFloat then .lt else .gt)

end Double

end TraitFactory
