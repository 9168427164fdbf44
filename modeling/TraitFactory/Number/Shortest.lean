/-!
# Shortest decimals

A binary floating-point number `m · 2 ^ q` stands for every real that rounds to it. This module
finds the decimal with the fewest significant digits among those reals, and of the decimals with
that many digits the one nearest to the number.
-/

namespace TraitFactory.Number

def pow2 (n : Nat) : Nat := Nat.pow 2 n

def pow10 (n : Nat) : Nat := Nat.pow 10 n

/-- The decimal `0.d₁d₂… · 10 ^ point`, with `digits` read as one natural number. -/
structure Decimal where
  digits : Nat
  point : Int
  deriving DecidableEq, Repr

/-- **Reals that round to a number**, in units of `2 ^ exponent`: those between `low` and
`high`, the ends included when `closed`. -/
structure Interval where
  low : Nat
  mid : Nat
  high : Nat
  exponent : Int
  closed : Bool
  deriving DecidableEq, Repr

/-- Quarter units make both halves of the gap below a power of two whole. -/
def Interval.around (m : Nat) (q : Int) (narrowBelow : Bool) : Interval where
  low := if narrowBelow then 4 * m - 1 else 4 * m - 2
  mid := 4 * m
  high := 4 * m + 2
  exponent := q - 2
  closed := m % 2 = 0

/-- Factors `(a, b)` such that `x · 2 ^ e` and `k · 10 ^ s` compare as `x * a` and `k * b`. -/
def crossFactors (e s : Int) : Nat × Nat :=
  (pow2 e.toNat * pow10 (-s).toNat, pow2 (-e).toNat * pow10 s.toNat)

/-- The least `p` with `x · 2 ^ e < 10 ^ p`, looked for near the estimate by binary length. -/
def decimalPoint (x : Nat) (e : Int) : Int :=
  let estimate := ((x.log2 : Int) + e) * 30103 / 100000
  let below := fun (p : Int) =>
    let (a, b) := crossFactors e p
    x * a < b
  ((List.range 6).map fun (i : Nat) => estimate - 2 + (i : Int)).find? below |>.getD (estimate + 4)

def Interval.holds (iv : Interval) (a b k : Nat) : Bool :=
  if iv.closed then iv.low * a ≤ k * b && k * b ≤ iv.high * a
  else iv.low * a < k * b && k * b < iv.high * a

/-- The nearest decimal with `n` digits that rounds to the number, if there is one. -/
def Interval.nearestWithDigits (iv : Interval) (point : Int) (n : Nat) : Option Decimal :=
  let (a, b) := crossFactors iv.exponent (point - n)
  let k := iv.mid * a / b
  let shortfall := iv.mid * a - k * b
  let excess := (k + 1) * b - iv.mid * a
  let lower := iv.holds a b k
  let upper := iv.holds a b (k + 1)
  let pick := fun (k : Nat) =>
    if k = pow10 n then some (Decimal.mk (pow10 (n - 1)) (point + 1))
    else some (Decimal.mk k point)
  if lower && upper then
    if shortfall < excess || (shortfall = excess && k % 2 = 0) then pick k else pick (k + 1)
  else if lower then pick k
  else if upper then pick (k + 1)
  else none

/-- Drops trailing zeros: `1200` stands for the same digits as `12`. -/
def trimZeros : Nat → Nat → Nat
  | 0, n => n
  | fuel + 1, n => if n ≠ 0 ∧ n % 10 = 0 then trimZeros fuel (n / 10) else n

/-- **Fewest digits first**: seventeen always suffice. -/
def Interval.shortest (iv : Interval) : Decimal :=
  let point := decimalPoint iv.mid iv.exponent
  match (List.range 17).findSome? fun n => iv.nearestWithDigits point (n + 1) with
  | some d => ⟨trimZeros 20 d.digits, d.point⟩
  | none => ⟨iv.mid, point⟩

end TraitFactory.Number
