import TraitFactory.Failure
import TraitFactory.Number.Order
import TraitFactory.Number.Places

/-!
# Arithmetic

The operations of whole numbers and of floating-point numbers, each with what it refuses. Quotients
of whole numbers are rounded once; remainders have the sign of what is divided by. Main statement:
a quotient and its remainder give back what was divided.
-/

namespace TraitFactory

namespace Cause

def zeroDivision (message : String) : Cause := .other "ZeroDivisionError" message

def zeroToNegative : Cause := zeroDivision "0.0 cannot be raised to a negative power"

def outOfRange : Cause := .overflow "(34, 'Numerical result out of range')"

def negativeShift : Cause := .badValue "negative shift count"

def notConvertible (what : String) (x : Double) : Cause :=
  if x.isNaN then .badValue ("cannot convert " ++ what ++ "NaN to integer")
  else .overflow ("cannot convert " ++ what ++ "infinity to integer")

end Cause

namespace Double

open Number (pow2 pow10 roundDiv)

/-! ## Rounding to doubles -/

/-- The double of a significand and an exponent, the former having at most fifty-three digits. -/
def compose (negative : Bool) (significand : Nat) (exponent : Int) : Double :=
  let bits :=
    if significand < pow2 52 then significand
    else if 971 < exponent then 2047 * pow2 52
    else (exponent + 1075).toNat * pow2 52 + (significand - pow2 52)
  ⟨UInt64.ofNat (bits + if negative then pow2 63 else 0)⟩

/-- **The double nearest to a quotient**, which is infinite if that is beyond them all. -/
def ofRatio (negative : Bool) (num den : Nat) : Double :=
  if num = 0 then compose negative 0 0
  else
    let quotient := fun (e : Int) => roundDiv (num * pow2 (-e).toNat) (den * pow2 e.toNat)
    let guess := max ((num.log2 : Int) - den.log2 - 53) (-1074)
    let e := if pow2 53 < quotient guess then guess + 1 else guess
    let q := quotient e
    if q = pow2 53 then compose negative (pow2 52) (e + 1) else compose negative q e

/-- A finite double as a quotient in lowest terms. -/
def ratio (x : Double) : Int × Nat :=
  let (num, den) := (x.significand * pow2 x.exponent.toNat, pow2 (-x.exponent).toNat)
  let g := Nat.gcd num den
  (if x.isNegative then -(num / g : Nat) else (num / g : Nat), den / g)

/-! ## Whole numbers from doubles -/

def isWhole (x : Double) : Bool := x.isFinite && x.ratio.2 = 1

/-- The greatest whole number that is not above. -/
def floor (x : Double) : Int := x.ratio.1.fdiv x.ratio.2

/-- The least whole number that is not below. -/
def ceiling (x : Double) : Int := -((-x.ratio.1).fdiv x.ratio.2)

def isOdd (x : Double) : Bool := x.isFinite && x.ratio.2 = 1 && x.ratio.1 % 2 ≠ 0

/-! ## Operations -/

def sub (x y : Double) : Double := ofFloat (x.toFloat - y.toFloat)

def magnitude (x : Double) : Double := ⟨x.bits &&& 0x7FFFFFFFFFFFFFFF⟩

/-- A magnitude with the sign of another number. -/
def withSign (x sign : Double) : Double :=
  if sign.isNegative then x.magnitude.negate else x.magnitude

def zero : Double := ⟨0⟩

/-- The remainder with the sign of what is divided, as if the quotient were cut off. -/
def truncatedRemainder (x y : Double) : Double :=
  if x.isNaN || y.isNaN || !x.isFinite || y.isZero then nan
  else if !y.isFinite then x
  else
    let e := min x.exponent y.exponent
    let whole := fun (z : Double) => z.significand * pow2 (z.exponent - e).toNat
    let r := whole x % whole y
    ofRatio x.isNegative (r * pow2 e.toNat) (pow2 (-e).toNat)

/-- The remainder with the sign of what is divided by. -/
def remainder (x y : Double) : Double :=
  let r := truncatedRemainder x y
  if r.isNaN then r
  else if r.isZero then zero.withSign y
  else if y.isNegative = r.isNegative then r
  else r.add y

/-- A finite double without what comes after its point, rounded down. -/
def floored (x : Double) : Double :=
  if x.isFinite then if x.isWhole then x else ofInt x.floor else x

/-- The quotient rounded down. -/
def floorQuotient (x y : Double) : Double :=
  let r := truncatedRemainder x y
  let q := (x.sub r).div y
  let q := if !r.isZero && !r.isNaN && y.isNegative ≠ r.isNegative then q.sub one else q
  if q.isNaN then q
  else if q.isZero then zero.withSign (x.div y)
  else
    let whole := q.floored
    if (q.sub whole).compare? (ofRatio false 1 2) = some .gt then whole.add one else whole

/-- A power of doubles; `none` where it is no real number. -/
def power (x y : Double) : Except Cause (Option Double) :=
  let real := fun (z : Double) => Except.ok (some z)
  let signed := fun (z : Double) => real (if y.isOdd then z.withSign x else z)
  let below := x.isNegative && !x.isZero
  if y.isZero then real one
  else if x.isNaN then real x
  else if y.isNaN then real (if x = one then one else y)
  else if !y.isFinite then
    match x.magnitude.compare? one with
    | some .eq => real one
    | order => real (if y.isNegative = (order = some .gt) then zero else infinity)
  else if !x.isFinite then signed (if y.isNegative then zero else infinity)
  else if x.isZero then
    if y.isNegative then .error .zeroToNegative else signed zero
  else if below && !y.isWhole then .ok none
  else
    let z := ofFloat (x.magnitude.toFloat ^ y.toFloat)
    if z.isFinite then signed z else .error .outOfRange

/-- A double rounded to so many places after the point, or before it if negative. -/
def roundedTo (x : Double) (places : Int) : Except Cause Double :=
  if !x.isFinite || 323 < places then .ok x
  else if places < -308 then .ok (zero.withSign x)
  else
    let r := ofScientific (x.scaled places) (-places)
    if r.isFinite then .ok (r.withSign x)
    else .error (.overflow "rounded value too large to represent")

/-- **The digits of a double in base sixteen.** -/
def hexText (x : Double) : String :=
  let sign := if x.isNegative && !x.isNaN then "-" else ""
  if x.isNaN then "nan"
  else if !x.isFinite then sign ++ "inf"
  else if x.isZero then sign ++ "0x0.0p+0"
  else
    let digits := Number.padLeft 13 '0' (String.ofList (Nat.toDigits 16 x.fraction))
    let e : Int := if x.biasedExponent = 0 then -1022 else x.biasedExponent - 1023
    sign ++ "0x" ++ (if x.biasedExponent = 0 then "0." else "1.") ++ digits ++ "p"
      ++ (if e < 0 then "-" else "+") ++ toString e.natAbs

end Double

/-! ## Whole numbers -/

namespace Number

/-- The quotient of two whole numbers as a double. Zero divided by a number below zero is `-0.0`. -/
def quotient (m n : Int) : Except Cause Double :=
  if n = 0 then .error (.zeroDivision "division by zero")
  else
    let q := Double.ofRatio ((m < 0) != (n < 0)) m.natAbs n.natAbs
    if q.isFinite then .ok q
    else .error (.overflow "integer division result too large for a float")

/-- A whole number rounded to tens, hundreds and so on, a tie going to the even multiple. -/
def roundedToTens (n : Int) (zeros : Nat) : Int :=
  let unit := pow10 zeros
  let rounded := roundDiv n.natAbs unit * unit
  if n < 0 then -(rounded : Int) else rounded

/-- The number of digits in base two. -/
def bitLength (n : Int) : Nat := if n = 0 then 0 else n.natAbs.log2 + 1

/-- The digits of a whole number in base two as they would be with endless signs, cut to a width. -/
def cutBits (width : Nat) (n : Int) : Nat := (n % (pow2 width : Int)).toNat

/-- The whole number of some digits in base two, the first of which is its sign. -/
def ofCutBits (width : Nat) (bits : Nat) : Int :=
  if bits < pow2 (width - 1) then bits else (bits : Int) - pow2 width

/-- Two whole numbers joined digit by digit in base two. -/
def bitwise (op : Nat → Nat → Nat) (m n : Int) : Int :=
  let width := max (bitLength m) (bitLength n) + 1
  ofCutBits width (op (cutBits width m) (cutBits width n))

/-- The most digits that a number is shifted by. -/
def shiftLimit : Nat := pow2 33

def shiftedUp (m n : Int) : Except Cause Int :=
  if n < 0 then .error .negativeShift
  else if m = 0 then .ok 0
  else if pow2 63 ≤ n then .error (.overflow "too many digits in integer")
  else if shiftLimit < n.toNat then .error .outOfMemory
  else .ok (m * pow2 n.toNat)

def shiftedDown (m n : Int) : Except Cause Int :=
  if n < 0 then .error .negativeShift
  else if bitLength m ≤ n.toNat then .ok (if m < 0 then -1 else 0)
  else .ok (m.fdiv (pow2 n.toNat))

/-- The power of a whole number. -/
def powerOf (m : Int) (n : Nat) : Int := Int.pow m n

/-- The remainder of a power, by squares; each step halves the exponent, so `fuel` is the number of
its digits in base two. -/
def powerRemainder (modulus : Nat) : Nat → Nat → Nat → Nat
  | 0, _, _ => 1 % modulus
  | fuel + 1, m, n =>
    if n = 0 then 1 % modulus
    else
      let half := powerRemainder modulus fuel (m * m % modulus) (n / 2)
      if n % 2 = 1 then half * m % modulus else half

/-- The greatest common divisor of two numbers, and what the first is multiplied with in a sum that
gives it: `s` and `s'` are these factors for the numbers that are left. -/
def divisorWithFactor : Nat → Int → Int → Int → Int → Int × Int
  | 0, r, _, s, _ => (r, s)
  | fuel + 1, r, r', s, s' =>
    if r' = 0 then (r, s)
    else divisorWithFactor fuel r' (r - r / r' * r') s' (s - r / r' * s')

/-- What a number is multiplied with to leave a remainder of one. -/
def inverse? (m : Int) (modulus : Nat) : Option Int :=
  let (g, s) := divisorWithFactor (2 * bitLength modulus + 3) (m % modulus) modulus 1 0
  if g = 1 then some (s % modulus) else none

/-- **A power with regard to a modulus.** -/
def powerModulo (m n k : Int) : Except Cause Int :=
  if k = 0 then .error (.badValue "pow() 3rd argument cannot be 0")
  else
    let modulus := k.natAbs
    let base := if n < 0 then inverse? m modulus else some m
    match base with
    | none => .error (.badValue "base is not invertible for the given modulus")
    | some base =>
      let r := powerRemainder modulus (bitLength n + 1) (base % modulus).toNat n.natAbs
      .ok ((r : Int).fmod k)

/-- A quotient rounded down and its remainder give back what was divided. -/
theorem fdiv_add_fmod (m n : Int) : n * m.fdiv n + m.fmod n = m := Int.mul_fdiv_add_fmod m n

/-- Digits that are cut to a width fit it. -/
theorem cutBits_lt (width : Nat) (n : Int) : cutBits width n < pow2 width := by
  have h : (0 : Int) < pow2 width := Int.natCast_pos.2 (Nat.pow_pos (by decide))
  have hlt := Int.emod_lt_of_pos n h
  have hge := Int.emod_nonneg n (Int.ne_of_gt h)
  simp only [cutBits]
  omega

end Number

end TraitFactory
