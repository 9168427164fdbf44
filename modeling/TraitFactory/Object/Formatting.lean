import TraitFactory.Number.Places
import TraitFactory.Object.Arguments
import TraitFactory.Text.Field
import TraitFactory.World.Unfold

/-!
# Values in fields

A value laid out as a field specification says. Texts, whole numbers and floating-point numbers
have forms of their own; all else has its text and takes no specification.
-/

namespace TraitFactory

namespace Cause

def notForTexts (what : String) : Cause :=
  .badValue (what ++ " not allowed in string format specifier")

def notForWhole (what : String) : Cause :=
  .badValue (what ++ " not allowed in integer format specifier")

def noSuchCode : Cause := .overflow "%c arg not in range(0x110000)"

end Cause

namespace Text.Field

/-! ## Texts -/

/-- Why a text cannot be laid out so, if it cannot. -/
def textProblem? (f : Field) (type : String) : Option Cause :=
  match f.form with
  | some c => if c = 's' then none else some (.unknownForm c type)
  | none => none

/-- What a text has no use for, if it is specified. -/
def textMisuse? (f : Field) : Option Cause :=
  if f.sign = some ' ' then some (.notForTexts "Space")
  else if f.sign.isSome then some (.notForTexts "Sign")
  else if f.plainZero then some (.notForTexts "Negative zero coercion (z)")
  else if f.alternate then some (.notForTexts "Alternate form (#)")
  else if f.alignment = '=' then some (.notForTexts "'=' alignment")
  else none

/-- **A text laid out.** -/
def textLaidOut (type s : String) (spec : List Code) : Except Cause String := do
  let f ← read type '<' (some 's') spec
  match (f.textProblem? type).or f.textMisuse? with
  | some cause => throw cause
  | none => f.text (codes s)

/-! ## Floating-point numbers -/

/-- A magnitude in digits that are significant, which has a point in any case if it has no
exponent. -/
def pointedText (x : Double) (precision : Nat) (keepZeros : Bool) : String :=
  let digits := max precision 1
  let (mantissa, e) := x.scientificParts (digits - 1)
  let trim := fun (s : String) => if keepZeros then s else Double.trimFraction s
  if !x.isZero && -4 ≤ e && e + 1 < digits || x.isZero && 1 < digits then
    let s := trim (x.fixedText (digits - 1 - e).toNat)
    if s.contains '.' then s else s ++ ".0"
  else trim (Number.withPoint mantissa (digits - 1)) ++ Double.exponentText e

/-- A text of a number with a point, put before the exponent where it had none. -/
def withPoint (s : String) : String :=
  if s.contains '.' then s
  else
    let cs := s.toList
    String.ofList (cs.takeWhile (· ≠ 'e') ++ '.' :: cs.dropWhile (· ≠ 'e'))

/-- The magnitude of a finite number in some form. -/
def finiteText (f : Field) (x : Double) (form : Char) : String :=
  let places := f.precision.getD 6
  let text := match form.toLower, f.precision with
    | 'f', _ | '%', _ => x.fixedText places
    | 'e', _ => x.exponentialText places
    | 'g', _ | 'n', _ => x.significantText places f.alternate
    | _, some p => pointedText x p f.alternate
    | _, none => x.magnitudeText
  if f.alternate then withPoint text else text

def magnitudeText (f : Field) (x : Double) (form : Char) : String :=
  let s := if x.isNaN then "nan" else if x.isFinite then finiteText f x form else "inf"
  (if form.isUpper then s.toUpper else s) ++ if form = '%' then "%" else ""

/-- Whether a text of a number has no digit but zeros. -/
def showsZero (s : String) : Bool :=
  (s.toList.takeWhile fun c => c ≠ 'e' && c ≠ 'E').all fun c => !c.isDigit || c = '0'

/-- Whether the sign of a number is shown. -/
def showsSign (f : Field) (x : Double) (text : String) : Bool :=
  x.isNegative && !x.isNaN && !(f.plainZero && x.isFinite && showsZero text)

/-- **A floating-point number laid out**, in the form that the field has. -/
def floatInField (f : Field) (type : String) (x : Double) : Except Cause String :=
  let form := match f.form with
    | none => some ' '
    | some c => c.char?.filter fun c => "eEfFgGn%".contains c
  match form with
  | none => .error (.unknownForm (f.form.getD default) type)
  | some form =>
    if Number.pow2 31 ≤ f.precision.getD 0 then .error (.badValue "precision too big")
    else if roomLimit < f.precision.getD 0 then .error .outOfMemory
    else
      let x := if form = '%' then x.mul (Double.ofInt 100) else x
      let text := magnitudeText f x form
      let digits := text.toList.takeWhile Char.isDigit
      f.number (f.showsSign x text) [] digits (text.toList.drop digits.length)

def floatLaidOut (type : String) (x : Double) (spec : List Code) : Except Cause String := do
  (← read type '>' none spec).floatInField type x

/-! ## Whole numbers -/

/-- The character that a number is the code of, with what it has no use for refused. -/
def codeInField (f : Field) (n : Int) : Except Cause String :=
  if f.sign.isSome then .error (.badValue "Sign not allowed with integer format specifier 'c'")
  else if f.alternate then
    .error (.badValue "Alternate form (#) not allowed with integer format specifier 'c'")
  else if n < -(Number.pow2 63 : Int) || Number.pow2 63 ≤ n then .error (.tooLargeFor "C long")
  else if n < 0 || 0x110000 ≤ n then .error .noSuchCode
  else
    let (before, between, after) := f.padding 1
    if roomLimit < f.width.getD 0 then .error .outOfMemory
    else .ok (ofCodes (before ++ between ++ Code.ofNat n.toNat :: after))

/-- The digits of a whole number in a base, after the mark of the base. -/
def basedInField (f : Field) (n : Int) (base : Nat) (mark : String) : Except Cause String :=
  let mark := if f.alternate then mark.toList else []
  f.number (n < 0) mark (Nat.toDigits base n.natAbs) []

/-- A whole number in capitals, mark and digits. -/
def capitalsInField (f : Field) (n : Int) : Except Cause String :=
  let mark := if f.alternate then "0X".toList else []
  f.number (n < 0) mark ((Nat.toDigits 16 n.natAbs).map Char.toUpper) []

/-- A whole number in a form for whole numbers. -/
def wholeInField (f : Field) (form : Char) (n : Int) : Except Cause String :=
  if f.precision.isSome then .error (.notForWhole "Precision")
  else if f.plainZero then .error (.notForWhole "Negative zero coercion (z)")
  else
    match form with
    | 'c' => codeInField f n
    | 'b' => basedInField f n 2 "0b"
    | 'o' => basedInField f n 8 "0o"
    | 'x' => basedInField f n 16 "0x"
    | 'X' => capitalsInField f n
    | _ =>
      if Number.isWritable n then f.number (n < 0) [] (Nat.toDigits 10 n.natAbs) []
      else .error .unwritable

/-- **A whole number laid out.** -/
def wholeLaidOut (type : String) (n : Int) (spec : List Code) : Except Cause String := do
  let f ← read type '>' (some 'd') spec
  let form := f.form.getD 'd'
  if form.is fun c => "bcdoxXn".contains c then f.wholeInField (form.char?.getD 'd') n
  else if form.is fun c => "eEfFgG%".contains c then
    match Double.ofInt? n with
    | some x => f.floatInField type x
    | none => throw .beyondDoubles
  else throw (.unknownForm form type)

end Text.Field

namespace Action

/-- **The text of a value laid out** as a specification says. Without one it is the plain text. -/
def formatted (v : Value) (spec : String) : Action String := do
  let w ← get
  let type := w.typeName v
  let laidOut : Option (Except Cause String) :=
    match v, v.asText?, v.asInt? with
    | _, some s, _ => some (Text.Field.textLaidOut type s (Text.codes spec))
    | .symbol _ _, _, _ => some (Text.Field.textLaidOut "str" (w.plainText v) (Text.codes spec))
    | .float _ x, _, _ => some (Text.Field.floatLaidOut type x (Text.codes spec))
    | _, _, some n => some (Text.Field.wholeLaidOut type n (Text.codes spec))
    | _, _, none => none
  if spec.isEmpty then plainText v
  else
    match laidOut with
    | some (.ok s) => return s
    | some (.error cause) => fail cause
    | none => wrongType

end Action

end TraitFactory
