import TraitFactory.Number.Double

/-!
# Decimal places

Doubles written with a given number of decimal places or significant digits. The exact value is
rounded once, and a tie goes to the even neighbour.
-/

namespace TraitFactory

namespace Number

/-- The quotient rounded to the nearest whole number, a tie to the even one. -/
def roundDiv (num den : Nat) : Nat :=
  let q := num / den
  let r := num % den
  if 2 * r < den || (2 * r = den && q % 2 = 0) then q else q + 1

theorem roundDiv_of_dvd {num den : Nat} (hpos : 0 < den) (hdvd : den ∣ num) :
    roundDiv num den = num / den := by
  have hr : num % den = 0 := Nat.mod_eq_zero_of_dvd hdvd
  simp [roundDiv, hr, hpos]

def padLeft (width : Nat) (fill : Char) (s : String) : String :=
  String.ofList (List.replicate (width - s.length) fill) ++ s

/-- Digits with a point before the last `places` of them. -/
def withPoint (digits places : Nat) : String :=
  let s := padLeft (places + 1) '0' (toString digits)
  if places = 0 then s
  else
    let whole := s.length - places
    (s.take whole).toString ++ "." ++ (s.drop whole).toString

end Number

namespace Double

open Number

/-- The magnitude times a power of ten, rounded to a whole number. -/
def scaled (x : Double) (power : Int) : Nat :=
  let (a, b) := crossFactors x.exponent (-power)
  roundDiv (x.significand * a) b

/-- The whole number next to a double on the side of zero. -/
def truncated (x : Double) : Int :=
  let (a, b) := crossFactors x.exponent 0
  let n : Int := x.significand * a / b
  if x.isNegative then -n else n

/-- The nearest whole number, a tie going to the even one. -/
def rounded (x : Double) : Int :=
  let n : Int := x.scaled 0
  if x.isNegative then -n else n

/-- **The magnitude with a number of decimal places.** -/
def fixedText (x : Double) (places : Nat) : String := withPoint (x.scaled places) places

/-- The magnitude as digits and an exponent, with so many digits after the first. -/
def scientificParts (x : Double) (places : Nat) : Nat × Int :=
  if x.isZero then (0, 0)
  else
    let e := decimalPoint x.significand x.exponent - 1
    let digits := x.scaled (places - e)
    if digits = pow10 (places + 1) then (pow10 places, e + 1) else (digits, e)

def exponentText (e : Int) : String :=
  "e" ++ (if e < 0 then "-" else "+") ++ padLeft 2 '0' (toString e.natAbs)

/-- **The magnitude in scientific form**, with so many digits after the point. -/
def exponentialText (x : Double) (places : Nat) : String :=
  let (digits, e) := x.scientificParts places
  withPoint digits places ++ exponentText e

/-- A fraction without the zeros at its end, and without a point that nothing follows. -/
def trimFraction (s : String) : String :=
  if s.contains '.' then
    let cs := s.toList.reverse.dropWhile (· = '0')
    String.ofList (match cs with
      | '.' :: cs => cs.reverse
      | cs => cs.reverse)
  else s

/-- **The magnitude with a number of significant digits**, positional where the exponent is
moderate. Zeros at the end are dropped unless they are kept. -/
def significantText (x : Double) (digits : Nat) (keepZeros : Bool) : String :=
  let digits := max digits 1
  let (mantissa, e) := x.scientificParts (digits - 1)
  let trim := fun (s : String) => if keepZeros then s else trimFraction s
  if -4 ≤ e && e < digits then trim (x.fixedText (digits - 1 - e).toNat)
  else trim (withPoint mantissa (digits - 1)) ++ exponentText e

end Double

end TraitFactory
