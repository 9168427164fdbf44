import TraitFactory.Number.Arithmetic
import TraitFactory.Object.TextMethods

/-!
# Methods of numbers

What numbers do when a method of theirs is called. An operator of a whole number knows whole numbers
alone, one of a floating-point number knows both.
-/

namespace TraitFactory

namespace Cause

def badByteOrder : Cause := .badValue "byteorder must be either 'little' or 'big'"

def notHexFloat : Cause := .badValue "invalid hexadecimal floating-point string"

def hexTooLarge : Cause := .overflow "hexadecimal value too large to represent as a float"

end Cause

/-- **Operators on two numbers.** -/
inductive NumberOperator where
  | add
  | sub
  | mul
  | trueDiv
  | floorDiv
  | mod
  | divMod
  | pow
  | shiftUp
  | shiftDown
  | meet
  | join
  | differ
  deriving DecidableEq, Repr

namespace NumberOperator

def names : List (NumberOperator × String) :=
  [(.add, "add"), (.sub, "sub"), (.mul, "mul"), (.trueDiv, "truediv"), (.floorDiv, "floordiv"),
    (.mod, "mod"), (.divMod, "divmod"), (.pow, "pow"), (.shiftUp, "lshift"),
    (.shiftDown, "rshift"), (.meet, "and"), (.join, "or"), (.differ, "xor")]

/-- The methods of some operators, with the operands either way round. -/
def methods (ops : List (NumberOperator × String)) : List String :=
  ops.flatMap fun op => ["__" ++ op.2 ++ "__", "__r" ++ op.2 ++ "__"]

/-- The operator of a name, and whether the operands change places. -/
def find? (name : String) : Option (NumberOperator × Bool) :=
  names.findSome? fun op =>
    if name = "__" ++ op.2 ++ "__" then some (op.1, false)
    else if name = "__r" ++ op.2 ++ "__" then some (op.1, true)
    else none

end NumberOperator

namespace Action

open Number

def wholeResult (r : Except Cause Int) : Action Value := .int <$> ofCause r

def realResult (r : Except Cause Double) : Action Value := do newFloat (← ofCause r)

/-! ## Operators -/

/-- A whole number to the power of another, as a floating-point number if the latter is negative. -/
def wholePower (m n : Int) : Action Value := do
  if 0 ≤ n then
    if shiftLimit < bitLength m * n.toNat && 1 < m.natAbs then fail .outOfMemory
    return .int (powerOf m n.toNat)
  else
    let x ← ofCause (World.number (.int m))
    let y ← ofCause (World.number (.int n))
    match ← ofCause (x.power y) with
    | some z => newFloat z
    | none => wrongType

def divideWhole (message : String) (divide : Int → Int → Int) (m n : Int) : Except Cause Int :=
  if n = 0 then .error (.zeroDivision message) else .ok (divide m n)

def wholeQuotientMessage : String := "integer division or modulo by zero"

/-- An operator of two whole numbers. -/
def operateOnWholes (op : NumberOperator) (m n : Int) : Action Value := do
  match op with
  | .add => return .int (m + n)
  | .sub => return .int (m - n)
  | .mul => return .int (m * n)
  | .trueDiv => realResult (quotient m n)
  | .floorDiv => wholeResult (divideWhole wholeQuotientMessage Int.fdiv m n)
  | .mod => wholeResult (divideWhole "integer modulo by zero" Int.fmod m n)
  | .divMod => do
    let q ← ofCause (divideWhole wholeQuotientMessage Int.fdiv m n)
    Parts.tuple [.int q, .int (m.fmod n)]
  | .pow => wholePower m n
  | .shiftUp => wholeResult (shiftedUp m n)
  | .shiftDown => wholeResult (shiftedDown m n)
  | .meet => return .int (bitwise Nat.land m n)
  | .join => return .int (bitwise Nat.lor m n)
  | .differ => return .int (bitwise Nat.xor m n)

def divideReal (message : String) (divide : Double → Double → Double) (x y : Double) :
    Except Cause Double :=
  if y.isZero then .error (.zeroDivision message) else .ok (divide x y)

/-- An operator of two floating-point numbers. -/
def operateOnReals (op : NumberOperator) (x y : Double) : Action Value := do
  match op with
  | .add => newFloat (x.add y)
  | .sub => newFloat (x.sub y)
  | .mul => newFloat (x.mul y)
  | .trueDiv => realResult (divideReal "float division by zero" Double.div x y)
  | .floorDiv =>
    realResult (divideReal "float floor division by zero" Double.floorQuotient x y)
  | .mod => realResult (divideReal "float modulo" Double.remainder x y)
  | .divMod => do
    let q ← realResult (divideReal "float divmod()" Double.floorQuotient x y)
    Parts.tuple [q, ← newFloat (x.remainder y)]
  | .pow => do
    match ← ofCause (x.power y) with
    | some z => newFloat z
    | none => return .inner "complex" .null "complex"
  | _ => return .notImplemented

/-- Truth values joined, where an operator gives a truth value again. -/
def operateOnTruths? (op : NumberOperator) (a b : Bool) : Option Bool :=
  match op with
  | .meet => some (a && b)
  | .join => some (a || b)
  | .differ => some (a != b)
  | _ => none

/-- The operands in the order in which they are meant. -/
def operands {α : Type} (swapped : Bool) (a b : α) : α × α := if swapped then (b, a) else (a, b)

/-- **An operator of a number**, with the operands swapped or not. -/
def operate (op : NumberOperator) (swapped : Bool) (v other : Value) : Action Value := do
  match v, other, v.asInt?, other.asInt? with
  | .bool a, .bool b, some m, some n =>
    match operateOnTruths? op a b with
    | some r => return .bool r
    | none =>
      let (m, n) := operands swapped m n
      operateOnWholes op m n
  | .float _ x, .float _ y, _, _ =>
    let (x, y) := operands swapped x y
    operateOnReals op x y
  | .float _ x, _, _, some n => do
    let y ← ofCause (World.number (.int n))
    let (x, y) := operands swapped x y
    operateOnReals op x y
  | _, _, some m, some n =>
    let (m, n) := operands swapped m n
    operateOnWholes op m n
  | _, _, _, _ => return .notImplemented

/-- A power with regard to a modulus, which only whole numbers have. -/
def operatePower (swapped : Bool) (v other modulus : Value) : Action Value := do
  match modulus, v, v.asInt?, other.asInt?, modulus.asInt? with
  | .null, _, _, _, _ => operate .pow swapped v other
  | _, .float _ _, _, _, _ => wrongType
  | _, _, some m, some n, some k =>
    let (m, n) := operands swapped m n
    wholeResult (powerModulo m n k)
  | _, _, _, _, _ => return .notImplemented

/-! ## Whole numbers -/

/-- Whether the bytes of a number stand with the smallest first. -/
def smallestFirst (order : Option Value) : Action Bool := do
  match order with
  | none => return false
  | some v =>
    match v.asText? with
    | some "little" => return true
    | some "big" => return false
    | some _ => fail .badByteOrder
    | none => wrongType

/-- The bytes of a whole number. -/
def bytesOfWhole (n : Int) (arguments : List Value) : Action Value := do
  let size ← sizeOf (arguments.headD (.int 1))
  let little ← smallestFirst arguments[1]?
  if size < 0 then fail (.badValue "length argument must be non-negative")
  if n < 0 then fail (.overflow "can't convert negative int to unsigned")
  roomFor size.toNat
  if size.toNat * 8 < bitLength n then fail (.overflow "int too big to convert")
  let order := if little then Text.ByteOrder.little else .big
  return .bytes (Text.Encoding.unitBytes order size.toNat n.toNat)

/-- Bytes given as such or as their numbers. -/
def givenBytes (v : Value) : Action (List UInt8) := do
  match v, v.asText? with
  | .bytes bs, _ => return bs
  | _, some _ => wrongType
  | v, none => do
    (← elements v).mapM fun x => do
      let n ← wholeOf x
      if 0 ≤ n && n < 256 then return UInt8.ofNat n.toNat
      else fail (.badValue "bytes must be in range(0, 256)")

/-- The whole number of some bytes. -/
def wholeFromBytes (v : Value) (order : Option Value) : Action Int := do
  let little ← smallestFirst order
  let bs ← givenBytes v
  let ordered := if little then bs.reverse else bs
  return ordered.foldl (fun n b => 256 * n + b.toNat) 0

/-- The methods of a whole number. -/
def callWhole (v : Value) (n : Int) (name : String) (arguments : List Value) : Action Value := do
  match name, arguments with
  | "conjugate", [] | "__int__", [] | "__index__", [] | "__trunc__", [] | "__floor__", []
  | "__ceil__", [] | "__pos__", [] | "__round__", [] => return .int n
  | "__neg__", [] => return .int (-n)
  | "__abs__", [] => return .int n.natAbs
  | "__invert__", [] => return .int (-n - 1)
  | "__bool__", [] => return .bool (n ≠ 0)
  | "__float__", [] => realResult (World.number (.int n))
  | "__round__", [places] => do
    let places ← wholeOf places
    return .int (if 0 ≤ places then n else roundedToTens n (min places.natAbs (bitLength n + 1)))
  | "bit_length", [] => return .int (bitLength n)
  | "bit_count", [] => return .int ((Nat.toDigits 2 n.natAbs).count '1')
  | "as_integer_ratio", [] => Parts.tuple [.int n, .int 1]
  | "to_bytes", arguments => bytesOfWhole n arguments
  | "from_bytes", bytes :: order => do
    let n ← wholeFromBytes bytes order.head?
    return match v with
      | .bool _ => .bool (n ≠ 0)
      | _ => .int n
  | "__getnewargs__", [] => Parts.tuple [.int n]
  | _, _ => wrongType

/-! ## Floating-point numbers -/

def hexDigit? (c : Char) : Option Nat :=
  if c.isDigit then some (c.toNat - 48)
  else if 'a' ≤ c.toLower && c.toLower ≤ 'f' then some (c.toLower.toNat - 87) else none

/-- A number in digits of base sixteen, after its sign. -/
def hexMagnitude (negative : Bool) (cs : List Char) : Except Cause Double := do
  let cs := match cs with
    | '0' :: x :: rest => if x = 'x' || x = 'X' then rest else cs
    | cs => cs
  let isHex := fun (c : Char) => (hexDigit? c).isSome
  let whole := cs.takeWhile isHex
  let (places, rest) := match cs.drop whole.length with
    | '.' :: rest => (rest.takeWhile isHex, rest.dropWhile isHex)
    | rest => ([], rest)
  if (whole ++ places).isEmpty then throw .notHexFloat
  let exponent : Int ← match rest with
    | [] => pure 0
    | p :: rest => do
      if p ≠ 'p' && p ≠ 'P' then throw .notHexFloat
      let (down, digits) := match rest with
        | '-' :: digits => (true, digits)
        | '+' :: digits => (false, digits)
        | digits => (false, digits)
      if digits.isEmpty || !digits.all Char.isDigit then throw .notHexFloat
      let e := digits.foldl (fun n c => 10 * n + (c.toNat - 48)) (0 : Nat)
      pure (if down then -(e : Int) else e)
  let digits := (whole ++ places).foldl (fun n c => 16 * n + (hexDigit? c).getD 0) 0
  let e : Int := exponent - (4 * places.length : Nat)
  if digits = 0 then return Double.zero.withSign (if negative then Double.one.negate else .one)
  else if 5000 < e + (bitLength digits : Int) then throw .hexTooLarge
  else if e + (bitLength digits : Int) < -5000 then
    return Double.zero.withSign (if negative then Double.one.negate else .one)
  else
    let x := Double.ofRatio negative (digits * pow2 e.toNat) (pow2 (-e).toNat)
    if x.isFinite then return x else throw .hexTooLarge

/-- **A floating-point number from its text in base sixteen.** -/
def fromHexText (s : String) : Except Cause Double :=
  let cs := (Text.strip s).toList
  let (negative, cs) := match cs with
    | '-' :: cs => (true, cs)
    | '+' :: cs => (false, cs)
    | cs => (false, cs)
  let signed := fun (x : Double) => if negative then x.negate else x
  match (String.ofList cs).toLower with
  | "inf" | "infinity" => .ok (signed .infinity)
  | "nan" => .ok (signed .nan)
  | _ => hexMagnitude negative cs

/-- A finite number turned into a whole one. -/
def wholeFrom (what : String) (x : Double) (turn : Double → Int) : Action Value :=
  if x.isFinite then return .int (turn x) else fail (.notConvertible what x)

def ratioOf (x : Double) : Action Value := do
  if x.isNaN then fail (.badValue "cannot convert NaN to integer ratio")
  if !x.isFinite then fail (.overflow "cannot convert Infinity to integer ratio")
  Parts.tuple [.int x.ratio.1, .int x.ratio.2]

/-- The methods of a floating-point number. -/
def callReal (v : Value) (x : Double) (name : String) (arguments : List Value) : Action Value := do
  match name, arguments with
  | "conjugate", [] | "__float__", [] | "__pos__", [] => return v
  | "is_integer", [] => return .bool x.isWhole
  | "as_integer_ratio", [] => ratioOf x
  | "hex", [] => return .text x.hexText
  | "fromhex", [s] =>
    match s.asText? with
    | some s => realResult (fromHexText s)
    | none => wrongType
  | "__neg__", [] => newFloat x.negate
  | "__abs__", [] => newFloat x.magnitude
  | "__bool__", [] => return .bool !x.isZero
  | "__int__", [] | "__trunc__", [] => wholeFrom "float " x Double.truncated
  | "__floor__", [] => wholeFrom "float " x Double.floor
  | "__ceil__", [] => wholeFrom "float " x Double.ceiling
  | "__round__", [] | "__round__", [.null] => wholeFrom "float " x Double.rounded
  | "__round__", [places] => do realResult (x.roundedTo (← sizeOf places))
  | "__getnewargs__", [] => Parts.tuple [v]
  | _, _ => wrongType

/-! ## Hashes -/

/-- The modulus of hashes. -/
def hashModulus : Nat := pow2 61 - 1

/-- The hash of a quotient, which is the same for all numbers that are equal. -/
def hashOfRatio (num : Int) (den : Nat) : Int :=
  let r : Int := (num.natAbs % hashModulus : Nat)
  let h := match inverse? den hashModulus with
    | some i => r * i % hashModulus
    | none => 314159
  let h := if num < 0 then -h else h
  if h = -1 then -2 else h

def hashOfReal (x : Double) : Int :=
  if x.isNaN then 0
  else if !x.isFinite then if x.isNegative then -314159 else 314159
  else hashOfRatio x.ratio.1 x.ratio.2

/-- **The methods of a number.** -/
def callNumber (v : Value) (name : String) (arguments : List Value) : Action Value := do
  match NumberOperator.find? name, arguments, v, v.asInt? with
  | some (.pow, swapped), other :: modulus, _, _ =>
    operatePower swapped v other (modulus.headD .null)
  | some (op, swapped), [other], _, _ => operate op swapped v other
  | _, arguments, .float _ x, _ =>
    if name = "__hash__" then return .int (hashOfReal x) else callReal v x name arguments
  | _, arguments, _, some n =>
    if name = "__hash__" then return .int (hashOfRatio n 1) else callWhole v n name arguments
  | _, _, _, none => wrongType

end Action

end TraitFactory
