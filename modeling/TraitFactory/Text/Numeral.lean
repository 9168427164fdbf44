import TraitFactory.Number.Double
import TraitFactory.Number.Length
import TraitFactory.Text.Blank
import TraitFactory.Text.Classes
import TraitFactory.Text.Code

/-!
# Numerals

Numbers read from texts. A numeral may have blanks around it, a sign, and single underscores between
its digits, which may be those of any decimal notation. Main statements: a digit stands for itself,
and each one that is added at the end moves the others up by one place.
-/

namespace TraitFactory.Text

/-! ## Characters of numerals -/

/-- The blanks that may stand around a numeral. -/
def isNumeralBlank (c : Char) : Bool := c = ' ' || (9 ≤ c.toNat && c.toNat ≤ 13)

/-- A code as it counts in a numeral: a digit of any notation is the ASCII digit, and what is in no
numeral is a question mark. -/
def numeralChar (c : Code) : Char :=
  match c with
  | .half _ => '?'
  | .char c =>
    if c.toNat < 127 then c
    else if isBlank c then ' '
    else ((decimalValue? c).map Nat.digitChar).getD '?'

/-- The characters of a numeral without the blanks around them. -/
def numeralChars (s : String) : List Char :=
  let cs := ((codes s).map numeralChar).dropWhile isNumeralBlank
  (cs.reverse.dropWhile isNumeralBlank).reverse

/-- What a letter or digit stands for among the digits of the larger bases. -/
def digitValue? (c : Char) : Option Nat :=
  if c.isDigit then some (c.toNat - 48)
  else if c.isAlpha then some (c.toLower.toNat - 87)
  else none

/-- Whether a character is a digit in a base. -/
def isDigitIn (base : Nat) (c : Char) : Bool := (digitValue? c).any (· < base)

/-- The number that digits in a base stand for. -/
def digitsValue (base : Nat) (cs : List Char) : Nat :=
  cs.foldl (fun n c => n * base + (digitValue? c).getD 0) 0

/-- The digits at the head of some characters, without the single underscores between them, and what
follows them. -/
def headDigits? (base : Nat) (cs : List Char) : Option (List Char × List Char) :=
  let belongs := fun (c : Char) => c = '_' || isDigitIn base c
  let groups := (String.ofList (cs.takeWhile belongs)).splitOn "_"
  if groups.any String.isEmpty then none
  else some (groups.flatMap String.toList, cs.dropWhile belongs)

/-- A sign and what follows it. -/
def signed (cs : List Char) : Bool × List Char :=
  match cs with
  | '-' :: cs => (true, cs)
  | '+' :: cs => (false, cs)
  | cs => (false, cs)

/-! ## Whole numbers -/

/-- The letters that mark bases. -/
def markedBase? (c : Char) : Option Nat := [('x', 16), ('o', 8), ('b', 2)].lookup c.toLower

/-- The base of a numeral and its digits, given the base that is asked for, or none if the numeral
itself is to tell. -/
def basedDigits (base : Option Nat) (cs : List Char) : Nat × List Char :=
  match cs with
  | '0' :: mark :: rest =>
    match markedBase? mark with
    | some marked =>
      if base.getD marked = marked then
        (marked, match rest with
          | '_' :: rest => rest
          | rest => rest)
      else (base.getD 10, cs)
    | none => (base.getD 10, cs)
  | cs => (base.getD 10, cs)

/-- Why a text is no whole number. -/
inductive NumeralProblem where
  | malformed
  /-- It has too many digits to be read. -/
  | tooLong (digits : Nat)
  deriving DecidableEq, Repr

/-- Bases in which numbers of any length are read. -/
def isBinaryBase (base : Nat) : Bool := [2, 4, 8, 16, 32].contains base

/-- **The whole number that a text is**, in a base or in the one that it tells. A number that does
not tell its base has no zeros before its digits. -/
def wholeNumber (base : Option Nat) (s : String) : Except NumeralProblem Int := do
  let (negative, cs) := signed (numeralChars s)
  let (found, cs) := basedDigits base cs
  match headDigits? found cs with
  | none => throw .malformed
  | some (digits, rest) =>
    if !isBinaryBase found && Number.maxDigits < digits.length then throw (.tooLong digits.length)
    let n := digitsValue found digits
    if base = none && found = 10 && cs.head? = some '0' && n ≠ 0 then throw .malformed
    if !rest.isEmpty then throw .malformed
    return if negative then -(n : Int) else n

/-! ## Floating-point numbers -/

/-- Characters without underscores, which may stand only between two digits. -/
def ungrouped? : List Char → Option (List Char)
  | [] => some []
  | '_' :: _ => none
  | c :: '_' :: d :: cs =>
    if c.isDigit && d.isDigit then (c :: ·) <$> ungrouped? (d :: cs) else none
  | c :: cs => (c :: ·) <$> ungrouped? cs

/-- An exponent after its mark. -/
def exponent? (cs : List Char) : Option Int :=
  match cs with
  | [] => some 0
  | mark :: cs =>
    let (negative, digits) := signed cs
    if mark.toLower ≠ 'e' || digits.isEmpty || !digits.all Char.isDigit then none
    else
      let n := digitsValue 10 digits
      some (if negative then -(n : Int) else n)

/-- A number without its sign. -/
def magnitude? (cs : List Char) : Option Double := do
  let word := (String.ofList cs).toLower
  if word = "inf" || word = "infinity" then return .infinity
  if word = "nan" then return .nan
  let whole := cs.takeWhile Char.isDigit
  let (places, rest) := match cs.dropWhile Char.isDigit with
    | '.' :: rest => (rest.takeWhile Char.isDigit, rest.dropWhile Char.isDigit)
    | rest => ([], rest)
  if (whole ++ places).isEmpty then none
  let e ← exponent? rest
  return Double.ofScientific (digitsValue 10 (whole ++ places)) (e - places.length)

/-- **The floating-point number that a text is.** -/
def realNumber? (s : String) : Option Double := do
  let (negative, cs) := signed (← ungrouped? (numeralChars s))
  let x ← magnitude? cs
  return if negative then x.negate else x

/-! ## Laws -/

/-- A digit stands for itself. -/
theorem digitsValue_singleton (base : Nat) (c : Char) :
    digitsValue base [c] = (digitValue? c).getD 0 := by
  simp [digitsValue]

/-- **A digit that is added moves the others up.** -/
theorem digitsValue_append_singleton (base : Nat) (cs : List Char) (c : Char) :
    digitsValue base (cs ++ [c]) = digitsValue base cs * base + digitsValue base [c] := by
  simp [digitsValue]

end TraitFactory.Text
