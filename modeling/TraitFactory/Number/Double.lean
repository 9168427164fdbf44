import TraitFactory.Number.Shortest

/-!
# Double-precision numbers

A double is kept as its sixty-four bits, so that equality of values is decidable and tells `0.0`
from `-0.0`; the numerical comparison is `Double.sameNumber`. Its text is the shortest decimal
that reads back, positional for moderate exponents and in scientific form for the others.
-/

namespace TraitFactory

/-- **IEEE 754 binary64**, by its bit pattern. -/
structure Double where
  bits : UInt64
  deriving DecidableEq, Repr

namespace Double

open Number (pow2)

def ofFloat (x : Float) : Double := ⟨x.toBits⟩

def toFloat (x : Double) : Float := Float.ofBits x.bits

def isNegative (x : Double) : Bool := x.bits.toNat / pow2 63 = 1

def biasedExponent (x : Double) : Nat := x.bits.toNat / pow2 52 % pow2 11

def fraction (x : Double) : Nat := x.bits.toNat % pow2 52

def isFinite (x : Double) : Bool := x.biasedExponent ≠ 2047

def isNaN (x : Double) : Bool := x.biasedExponent = 2047 && x.fraction ≠ 0

def isZero (x : Double) : Bool := x.biasedExponent = 0 && x.fraction = 0

/-- A finite double is `± significand · 2 ^ exponent`. -/
def significand (x : Double) : Nat :=
  if x.biasedExponent = 0 then x.fraction else x.fraction + pow2 52

def exponent (x : Double) : Int :=
  if x.biasedExponent = 0 then -1074 else (x.biasedExponent : Int) - 1075

/-- The gap below a power of two is half the gap above it. -/
def narrowBelow (x : Double) : Bool := x.fraction = 0 && 1 < x.biasedExponent

def shortest (x : Double) : Number.Decimal :=
  (Number.Interval.around x.significand x.exponent x.narrowBelow).shortest

/-! ## Text -/

/-- Places of the decimal point that are written positionally. -/
def positionalFrom : Int := -3

def positionalTo : Int := 16

def zeros (n : Nat) : String := String.ofList (List.replicate n '0')

def positionalText (digits : String) (point : Int) : String :=
  if point ≤ 0 then "0." ++ zeros (-point).toNat ++ digits
  else
    let n := point.toNat
    if digits.length ≤ n then digits ++ zeros (n - digits.length) ++ ".0"
    else (digits.take n).toString ++ "." ++ (digits.drop n).toString

/-- One digit before the point, and an exponent of at least two digits. -/
def scientificText (digits : String) (point : Int) : String :=
  let e := point - 1
  let size := toString e.natAbs
  let mantissa :=
    if digits.length ≤ 1 then digits
    else (digits.take 1).toString ++ "." ++ (digits.drop 1).toString
  mantissa ++ "e" ++ (if e < 0 then "-" else "+") ++ (if size.length < 2 then "0" else "") ++ size

def magnitudeText (x : Double) : String :=
  if x.isZero then "0.0"
  else
    let d := x.shortest
    let digits := toString d.digits
    if positionalFrom ≤ d.point && d.point ≤ positionalTo then positionalText digits d.point
    else scientificText digits d.point

/-- **The text of a double**: the fewest digits that read back. -/
def text (x : Double) : String :=
  if x.isNaN then "nan"
  else (if x.isNegative then "-" else "") ++ (if x.isFinite then x.magnitudeText else "inf")

/-! ## Reading and arithmetic -/

def nan : Double := ⟨0x7FF8000000000000⟩

def infinity : Double := ⟨0x7FF0000000000000⟩

def negate (x : Double) : Double := ⟨x.bits ^^^ 0x8000000000000000⟩

/-- The double nearest to `digits · 10 ^ exponent`. Beyond a thousand places either way the
result is infinite or zero, whatever the digits. -/
def ofScientific (digits : Nat) (exponent : Int) : Double :=
  let size : Int := (toString digits).length
  if digits = 0 then ⟨0⟩
  else if size + exponent > 400 then infinity
  else if size + exponent < -400 then ⟨0⟩
  else ofFloat (Float.ofScientific digits (exponent < 0) exponent.natAbs)

def ofInt (n : Int) : Double :=
  if n < 0 then negate (ofScientific n.natAbs 0) else ofScientific n.natAbs 0

/-- A whole number as a double, unless it is beyond them all. -/
def ofInt? (n : Int) : Option Double :=
  let x := ofInt n
  if x.isFinite then some x else none

def one : Double := ofInt 1

def add (x y : Double) : Double := ofFloat (x.toFloat + y.toFloat)

def mul (x y : Double) : Double := ofFloat (x.toFloat * y.toFloat)

def div (x y : Double) : Double := ofFloat (x.toFloat / y.toFloat)

/-- Numerical equality: `nan` equals nothing and both zeros are one number. -/
def sameNumber (x y : Double) : Bool :=
  if x.isNaN || y.isNaN then false
  else x.bits = y.bits || (x.isZero && y.isZero)

/-- Exact comparison with an integer. -/
def sameInt (x : Double) (n : Int) : Bool :=
  if !x.isFinite then false
  else
    let m : Int := if x.isNegative then -(x.significand : Int) else x.significand
    if 0 ≤ x.exponent then m * pow2 x.exponent.toNat = n
    else m = n * pow2 (-x.exponent).toNat

def isBelowZero (x : Double) : Bool := x.isNegative && !x.isZero && !x.isNaN

end Double

end TraitFactory
