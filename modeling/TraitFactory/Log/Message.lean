import TraitFactory.Number.Places
import TraitFactory.Text.Template
import TraitFactory.World.Unfold

/-!
# Messages

Fills the placeholders of a template with values. Each placeholder takes the next value, and all
values must be taken.
-/

namespace TraitFactory

open Text (Placeholder TemplatePart Measure)

/-- A value as it fills a placeholder: its sign, what marks its base, and the rest. Zeros go
between the mark and the rest; blanks stand outside. -/
structure Filling where
  sign : String := ""
  mark : String := ""
  body : String
  isNumber : Bool := true
  deriving DecidableEq, Repr

namespace Filling

/-- **The filling in its field.** -/
def text (f : Filling) (p : Placeholder) (width : Nat) (leftAligned : Bool) : String :=
  let whole := f.sign ++ f.mark ++ f.body
  let room := fun (c : Char) => String.ofList (List.replicate (width - Text.length whole) c)
  if leftAligned then whole ++ room ' '
  else if f.isNumber && p.zeroFilled then f.sign ++ f.mark ++ room '0' ++ f.body
  else room ' ' ++ whole

end Filling

namespace Cause

/-- A letter that stands for no conversion. What is not `plain` is not shown as it is. -/
def unknownConversion (plain : Char → Bool) (p : Placeholder) : Cause :=
  let shown := if p.conversion.is plain then Text.ofCode p.conversion else "?"
  let code := String.ofList (Nat.toDigits 16 p.conversion.toNat)
  let index := toString p.index
  .badValue ("unsupported format character '" ++ shown ++ "' (0x" ++ code ++ ") at index "
    ++ index)

def unfinishedTemplate : Cause := .badValue "incomplete format"

def precisionTooLarge : Cause := .overflow "precision too large"

end Cause

namespace Placeholder

def signText (p : Placeholder) (negative : Bool) : String :=
  if negative then "-" else if p.signed then "+" else if p.spaced then " " else ""

/-- The digits of a number, at least as many as the precision says. -/
def intFilling (p : Placeholder) (precision : Option Nat) (base : Nat) (mark : String) (n : Int) :
    Filling :=
  let digits := String.ofList (Nat.toDigits base n.natAbs)
  { sign := signText p (n < 0)
    mark := if p.alternate then mark else ""
    body := Number.padLeft (precision.getD 0) '0' digits }

/-- With the alternate form a point is always written. -/
def withPoint (p : Placeholder) (s : String) : String :=
  if !p.alternate || s.contains '.' then s
  else
    let cs := s.toList
    String.ofList (cs.takeWhile (· ≠ 'e') ++ '.' :: cs.dropWhile (· ≠ 'e'))

def floatFilling (p : Placeholder) (precision : Option Nat) (x : Double) : Filling :=
  let places := precision.getD 6
  let conversion := (p.conversion.char?.getD ' ').toLower
  let magnitude :=
    if x.isNaN then "nan"
    else if !x.isFinite then "inf"
    else if conversion = 'f' then withPoint p (x.fixedText places)
    else if conversion = 'e' then withPoint p (x.exponentialText places)
    else withPoint p (x.significantText places p.alternate)
  { sign := signText p (x.isNegative && !x.isNaN)
    body := if p.conversion.is Char.isUpper then magnitude.toUpper else magnitude }

def textFilling (precision : Option Nat) (s : String) : Filling :=
  { body := match precision with
      | some n => Text.ofCodes ((Text.codes s).take n)
      | none => s
    isNumber := false }

end Placeholder

/-- A text in which everything outside ASCII is written by its number. -/
def Text.asciiOnly (s : String) : String :=
  String.join ((Text.codes s).map fun c =>
    if c.toNat < 128 then Text.ofCode c else Text.numberEscape c.toNat)

namespace World

open Placeholder

/-- A value as a whole number, what comes after the point being cut off. -/
def wholeNumber : Value → Except Cause Int
  | .float _ x =>
    if x.isNaN then .error (.badValue "cannot convert float NaN to integer")
    else if !x.isFinite then
      .error (.overflow "cannot convert float infinity to integer")
    else .ok x.truncated
  | v =>
    match v.asInt? with
    | some n => .ok n
    | none => .error (.wrongType none)

def number : Value → Except Cause Double
  | .float _ x => .ok x
  | v =>
    match v.asInt? with
    | some n =>
      match Double.ofInt? n with
      | some x => .ok x
      | none => .error .beyondDoubles
    | none => .error (.wrongType none)

def character : Value → Except Cause String
  | .int n =>
    if 0 ≤ n && n < 0x110000 then .ok (Text.ofCode (Text.Code.ofNat n.toNat))
    else .error (.overflow "%c arg not in range(0x110000)")
  | .bool b => .ok (if b then "\x01" else "\x00")
  | v =>
    match v.asText? with
    | some s => if Text.length s = 1 then .ok s else .error (.wrongType none)
    | none => .error (.wrongType none)

/-- The most room that a field is given. -/
def roomLimit : Nat := Number.pow2 30

/-- The most digits that a whole number may be filled up to. -/
def digitLimit : Nat := Number.pow2 31 - 4

/-- A whole number in a base; only the decimal base is limited in length. -/
def basedFilling (p : Placeholder) (precision : Option Nat) (base : Nat) (mark : String)
    (n : Int) : Except Cause Filling :=
  if digitLimit < precision.getD 0 then .error .precisionTooLarge
  else if roomLimit < precision.getD 0 then .error .outOfMemory
  else if base = 10 && !Number.isWritable n then .error .unwritable
  else .ok (intFilling p precision base mark n)

def shownFilling (w : World) (precision : Option Nat) (v : Value) (text : View → String) :
    Except Cause Filling := do
  return textFilling precision (← w.written v text)

/-- The filling for a value, by the letter of the conversion. -/
def filling (w : World) (p : Placeholder) (precision : Option Nat) (v : Value) :
    Except Cause Filling :=
  let based := fun (base : Nat) (mark : String) =>
    match v.asInt? with
    | some n => basedFilling p precision base mark n
    | none => .error (.wrongType none)
  match p.conversion.char?.getD ' ' with
  | 's' => w.shownFilling precision v View.plainText
  | 'r' => w.shownFilling precision v View.quoted
  | 'a' => w.shownFilling precision v fun view => Text.asciiOnly view.quoted
  | 'd' | 'i' | 'u' => do basedFilling p precision 10 "" (← wholeNumber v)
  | 'o' => based 8 "0o"
  | 'x' => based 16 "0x"
  | 'X' => do
    let f ← based 16 "0x"
    return { f with mark := f.mark.toUpper, body := f.body.toUpper }
  | 'e' | 'E' | 'f' | 'F' | 'g' | 'G' => do
    let x ← number v
    if roomLimit < precision.getD 0 then throw .outOfMemory
    return floatFilling p precision x
  | 'c' => do return { body := ← character v, isNumber := false }
  | _ => .error (.unknownConversion (fun c => 31 ≤ c.toNat && c.toNat ≤ 126) p)

/-- The next value, where there must be one. -/
def next : List Value → Except Cause (Value × List Value)
  | v :: vs => .ok (v, vs)
  | [] => .error (.wrongType none)

/-- What a number in a placeholder may be: where it is written out at most `most`; where it is
taken from the values, what fits a signed machine integer, `machine`, of the same size. -/
structure MeasureLimit where
  what : String
  machine : String
  most : Nat

def widthLimit : MeasureLimit := ⟨"width", "C ssize_t", Number.pow2 63 - 1⟩

def precisionLimit : MeasureLimit := ⟨"precision", "C int", Number.pow2 31 - 1⟩

/-- A number in a placeholder; a number taken from the values must be an integer. -/
def measure (limit : MeasureLimit) : Option Measure → List Value →
    Except Cause (Option Int × List Value)
  | none, vs => .ok (none, vs)
  | some (.given n), vs =>
    if n ≤ limit.most then .ok (some n, vs) else .error (.badValue (limit.what ++ " too big"))
  | some .argument, vs => do
    let (v, vs) ← next vs
    match v.asInt? with
    | some n =>
      if -(limit.most : Int) - 1 ≤ n && n ≤ limit.most then return (some n, vs)
      else throw (.tooLargeFor limit.machine)
    | none => throw (.wrongType none)

/-- One placeholder and the values left after it; `filling` says how a value fills it. A negative
width turns the alignment around, and the least of all means no width. -/
def fillPlaceholder (filling : Placeholder → Option Nat → Value → Except Cause Filling)
    (p : Placeholder) (vs : List Value) : Except Cause (String × List Value) := do
  let (width, vs) ← measure widthLimit p.width vs
  let (precision, vs) ← measure precisionLimit p.precision vs
  let (v, vs) ← next vs
  let f ← filling p (precision.map (·.toNat)) v
  let width := width.getD 0
  let room := if width.natAbs ≤ widthLimit.most then width.natAbs else 0
  if roomLimit < room then throw .outOfMemory
  return (f.text p room (p.leftAligned || width < 0), vs)

/-- What is wrong with a template that ends in the midst of a placeholder. -/
def unfinished (width precision : Option Measure) (vs : List Value) : Except Cause String := do
  let (_, vs) ← measure widthLimit width vs
  let _ ← measure precisionLimit precision vs
  throw .unfinishedTemplate

/-- Fills part after part. Values that are left over are refused. -/
def fill (w : World) : List TemplatePart → List Value → Except Cause String
  | [], [] => .ok ""
  | [], _ :: _ => .error (.wrongType none)
  | .code c :: parts, vs => do return Text.ofCode c ++ (← w.fill parts vs)
  | .placeholder p :: parts, vs => do
    let (s, vs) ← fillPlaceholder w.filling p vs
    return s ++ (← w.fill parts vs)
  | .key _ :: _, _ | .unfinishedKey :: _, _ => .error (.wrongType none)
  | .unfinished width precision :: _, vs => unfinished width precision vs

/-- **The text of a message.** Without values it is taken as it is. -/
def messageText (w : World) (message : Value) (values : List Value) : Except Cause String :=
  match w.written message View.plainText with
  | .error c => .error c
  | .ok s => if values.isEmpty then .ok s else w.fill (TemplatePart.ofText s) values

end World

end TraitFactory
