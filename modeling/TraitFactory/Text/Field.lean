import TraitFactory.Failure
import TraitFactory.Text.Classes

/-!
# Fields

A field specification says how a value is laid out: what fills its field up and on which side, how
wide the field is, how numbers are grouped and rounded, and which form they take. Here such
specifications are read, and texts and numbers are put into their fields.
-/

namespace TraitFactory

namespace Cause

def tooManyDigits : Cause := .badValue "Too many decimal digits in format string"

def commaAndUnderscore : Cause := .badValue "Cannot specify both ',' and '_'."

def missingPrecision : Cause := .badValue "Format specifier missing precision"

def badSpecifier (spec type : String) : Cause :=
  .badValue ("Invalid format specifier '" ++ spec ++ "' for object of type '" ++ type ++ "'")

/-- A code as it is named in a message. -/
def namedCode (c : Text.Code) : String :=
  if 32 < c.toNat && c.toNat < 128 then Text.ofCode c
  else "\\x" ++ String.ofList (Nat.toDigits 16 c.toNat)

def badSeparator (separator : Char) (form : Text.Code) : Cause :=
  .badValue ("Cannot specify '" ++ separator.toString ++ "' with '" ++ namedCode form ++ "'.")

def unknownForm (form : Text.Code) (type : String) : Cause :=
  .badValue ("Unknown format code '" ++ namedCode form ++ "' for object of type '" ++ type ++ "'")

end Cause

namespace Text

/-- **A field specification.** -/
structure Field where
  fill : Code := .char ' '
  /-- Where the value stands in the field: to the left, to the right, in the middle, or with its
  sign to the left and its digits to the right. -/
  alignment : Char
  sign : Option Char := none
  /-- Whether a zero has no sign. -/
  plainZero : Bool := false
  alternate : Bool := false
  width : Option Nat := none
  separator : Option Char := none
  precision : Option Nat := none
  form : Option Code := none
  deriving DecidableEq, Repr

namespace Field

/-! ## Reading -/

def isAlignment (c : Char) : Bool := c = '<' || c = '>' || c = '=' || c = '^'

def isSign (c : Char) : Bool := c = ' ' || c = '+' || c = '-'

/-- A number, if there is one; it must fit the word for sizes. -/
def readNumber (cs : List Code) : Except Cause (Option Nat × List Code) :=
  let digits := (cs.takeWhile (·.is isDecimal)).filterMap fun c => c.char?.bind decimalValue?
  let n := digits.foldl (fun n d => 10 * n + d) 0
  if Nat.pow 2 63 ≤ n then .error .tooManyDigits
  else .ok (if digits.isEmpty then none else some n, cs.drop digits.length)

/-- Takes a character off that may come next. -/
def readOption (p : Char → Bool) : List Code → Option Char × List Code
  | .char c :: cs => if p c then (some c, cs) else (none, .char c :: cs)
  | cs => (none, cs)

/-- The fill and the alignment, each if it is given. -/
def readAlignment : List Code → Option Code × Option Char × List Code
  | fill :: .char a :: cs =>
    if isAlignment a then (some fill, some a, cs)
    else
      let (first, rest) := readOption isAlignment (fill :: .char a :: cs)
      (none, first, rest)
  | cs =>
    let (first, rest) := readOption isAlignment cs
    (none, first, rest)

/-- What separates groups of digits. -/
def readSeparator (cs : List Code) : Except Cause (Option Char × List Code) :=
  let (comma, cs) := readOption (· = ',') cs
  let (underscore, cs) := readOption (· = '_') cs
  match comma, underscore, readOption (· = ',') cs with
  | some _, some _, _ | none, some _, (some _, _) => .error .commaAndUnderscore
  | _, _, _ => .ok (comma.or underscore, cs)

def readPrecision (cs : List Code) : Except Cause (Option Nat × List Code) :=
  match cs with
  | .char '.' :: cs => do
    match ← readNumber cs with
    | (some n, cs) => return (some n, cs)
    | (none, _) => throw .missingPrecision
  | cs => .ok (none, cs)

/-- The forms whose digits may be grouped by either separator. -/
def isGrouped (c : Char) : Bool := "defgEG%F".contains c

/-- The forms in other bases, whose digits are grouped by underscores alone. -/
def isBased (c : Char) : Bool := "boxX".contains c

/-- Fails if the digits of a form cannot be grouped. -/
def checkGrouping (separator : Option Char) (form : Option Code) : Except Cause Unit :=
  match separator, form with
  | some s, some c =>
    if c.is isGrouped || (s = '_' && c.is isBased) then .ok () else .error (.badSeparator s c)
  | _, _ => .ok ()

/-- **Reads a specification** for values of a type, which usually stand on one side and, where the
type has one, in a form of its own. -/
def read (type : String) (usual : Char) (usualForm : Option Char) (cs : List Code) :
    Except Cause Field := do
  let (fill, alignment, rest) := readAlignment cs
  let (sign, rest) := readOption isSign rest
  let (plainZero, rest) := readOption (· = 'z') rest
  let (alternate, rest) := readOption (· = '#') rest
  let (zero, rest) := if fill.isSome then (none, rest) else readOption (· = '0') rest
  let (width, rest) ← readNumber rest
  let (separator, rest) ← readSeparator rest
  let (precision, rest) ← readPrecision rest
  if 1 < rest.length then throw (.badSpecifier (ofCodes cs) type)
  checkGrouping separator (rest.head?.or (usualForm.map .char))
  return {
    fill := if zero.isSome then '0' else fill.getD ' '
    alignment := alignment.getD (if zero.isSome && usual = '>' then '=' else usual)
    sign := sign
    plainZero := plainZero.isSome
    alternate := alternate.isSome
    width := width
    separator := separator
    precision := precision
    form := rest.head? }

/-! ## Putting into fields -/

/-- The most room that a field is given. -/
def roomLimit : Nat := Nat.pow 2 30

/-- What comes before a value in its field, between its sign and its digits, and after it. -/
def padding (f : Field) (length : Nat) : List Code × List Code × List Code :=
  let room := f.width.getD 0 - length
  let fill := fun n => List.replicate n f.fill
  match f.alignment with
  | '<' => ([], [], fill room)
  | '^' => (fill (room / 2), [], fill (room - room / 2))
  | '=' => ([], fill room, [])
  | _ => (fill room, [], [])

/-- The size of the groups of digits. -/
def groupSize (f : Field) : Nat := if f.form.any (·.is isBased) then 4 else 3

/-- Digits in groups from the right, with zeros before them up to a width. `fuel` bounds the number
of groups. -/
def groupedFrom (size : Nat) (separator : Char) : Nat → Nat → List Char → List Char
  | 0, _, digits => digits.reverse
  | fuel + 1, width, digits =>
    let length := min size (max (max digits.length width) 1)
    let group := digits.take length ++ List.replicate (length - digits.length) '0'
    let rest := digits.drop length
    if rest.isEmpty && width ≤ length then group.reverse
    else groupedFrom size separator fuel (width - length - 1) rest ++ separator :: group.reverse

/-- **Digits in their groups**, at least so wide. -/
def grouped (f : Field) (width : Nat) (digits : List Char) : List Char :=
  match f.separator with
  | some s => groupedFrom f.groupSize s (digits.length + width + 1) width digits.reverse
  | none => List.replicate (width - digits.length) '0' ++ digits

/-- The sign that is written before a number. -/
def signText (f : Field) (negative : Bool) : List Char :=
  if negative then ['-']
  else
    match f.sign with
    | some '+' => ['+']
    | some ' ' => [' ']
    | _ => []

/-- **A number in its field**: its sign, the mark of its base, its whole digits, and the rest. -/
def number (f : Field) (negative : Bool) (mark digits rest : List Char) : Except Cause String :=
  let sign := f.signText negative
  let fixed := sign.length + mark.length + rest.length
  let zeros := f.fill = '0' && f.alignment = '='
  let digits :=
    if digits.isEmpty then [] else f.grouped (if zeros then f.width.getD 0 - fixed else 0) digits
  let (before, between, after) := f.padding (fixed + digits.length)
  if roomLimit < f.width.getD 0 then .error .outOfMemory
  else .ok (ofCodes (before ++ (sign ++ mark).map .char ++ between ++ (digits ++ rest).map .char
    ++ after))

/-- **A text in its field.** -/
def text (f : Field) (cs : List Code) : Except Cause String :=
  let shown := match f.precision with
    | some n => cs.take n
    | none => cs
  let (before, _, after) := f.padding shown.length
  if roomLimit < f.width.getD 0 then .error .outOfMemory
  else .ok (ofCodes (before ++ shown ++ after))

end Field

end Text

end TraitFactory
