import TraitFactory.Object.TextMethods

/-!
# Methods of byte strings

What byte strings do when a method of theirs is called, besides what they have in common with
texts. Bytes below 128 are taken for the ASCII characters that they are the codes of.
-/

namespace TraitFactory

namespace Bytes

/-- The character that a byte is the code of, among the first 256. -/
def toChar (b : UInt8) : Char := Char.ofNat b.toNat

def ofChar (c : Char) : UInt8 := UInt8.ofNat c.toNat

/-- The characters that bytes are the codes of. -/
def text (bs : List UInt8) : String := String.ofList (bs.map toChar)

def isSmall (b : UInt8) : Bool := (toChar b).isLower

def isCapital (b : UInt8) : Bool := (toChar b).isUpper

def isLetter (b : UInt8) : Bool := isSmall b || isCapital b

def isDigit (b : UInt8) : Bool := (toChar b).isDigit

def isBlank (b : UInt8) : Bool := b = 32 || (9 ≤ b && b ≤ 13)

def small (b : UInt8) : UInt8 := if isCapital b then b + 32 else b

def capital (b : UInt8) : UInt8 := if isSmall b then b - 32 else b

/-- Letters at the heads of words as capitals, all others as small letters. -/
def titledFrom (inside : Bool) : List UInt8 → List UInt8
  | [] => []
  | b :: bs => (if inside then small b else capital b) :: titledFrom (isLetter b) bs

/-- Whether capitals stand at the heads of words only and small letters within them only. -/
def isTitled (inside : Bool) : List UInt8 → Bool
  | [] => true
  | b :: bs => (!isLetter b || inside = isSmall b) && isTitled (isLetter b) bs

/-- A digit of a number in base sixteen. -/
def digit (n : Nat) : Char := Nat.digitChar n

/-- The two digits of each byte. -/
def hexDigits (bs : List UInt8) : List (List Char) :=
  bs.map fun b => [digit (b.toNat / 16), digit (b.toNat % 16)]

/-- Groups of so many, of which there are at most `fuel`; the last one may be smaller. -/
def groups {α : Type} (size : Nat) : Nat → List α → List (List α)
  | 0, _ | _, [] => []
  | fuel + 1, x :: xs => (x :: xs).take size :: groups size fuel ((x :: xs).drop size)

/-- Groups of so many, the first of which may be smaller. -/
def groupsFromEnd {α : Type} (size : Nat) (xs : List α) : List (List α) :=
  let first := xs.length % size
  (if first = 0 then [] else [xs.take first]) ++ groups size xs.length (xs.drop first)

end Bytes

/-- Byte strings as sequences of letters. -/
def byteLettering : Lettering UInt8 where
  unit := Bytes.ofChar
  isBlank := Bytes.isBlank
  endsLine b := b = 10 || b = 13
  read?
    | .bytes bs => some bs
    | _ => none
  part v :=
    match v, v.asInt? with
    | .bytes bs, _ => return bs
    | _, some n =>
      if 0 ≤ n && n < 256 then return [UInt8.ofNat n.toNat]
      else Action.fail (.badValue "byte must be in range(0, 256)")
    | _, none => Action.wrongType
  write bs := .bytes bs
  notFound := "subsection not found"

namespace Cause

def notHex (place : Nat) : Cause :=
  .badValue s!"non-hexadecimal number found in fromhex() arg at position {place}"

def oddTable : Cause := .badValue "translation table must be 256 characters long"

def unequalByteMaps : Cause := .badValue "maketrans arguments must have same length"

def longSeparator : Cause := .badValue "sep must be length 1."

def foreignSeparator : Cause := .badValue "sep must be ASCII."

end Cause

namespace Action

/-- The methods of a byte string that take no more than the bytes. -/
def formOfBytes (bs : List UInt8) : String → Option Value
  | "upper" => some (.bytes (bs.map Bytes.capital))
  | "lower" => some (.bytes (bs.map Bytes.small))
  | "capitalize" =>
    some (.bytes (match bs with
      | [] => []
      | b :: bs => Bytes.capital b :: bs.map Bytes.small))
  | "swapcase" =>
    some (.bytes (bs.map fun b => if Bytes.isSmall b then Bytes.capital b else Bytes.small b))
  | "title" => some (.bytes (Bytes.titledFrom false bs))
  | "isalpha" => some (.bool (!bs.isEmpty && bs.all Bytes.isLetter))
  | "isalnum" => some (.bool (!bs.isEmpty && bs.all fun b => Bytes.isLetter b || Bytes.isDigit b))
  | "isdigit" => some (.bool (!bs.isEmpty && bs.all Bytes.isDigit))
  | "isspace" => some (.bool (!bs.isEmpty && bs.all Bytes.isBlank))
  | "istitle" => some (.bool (bs.any Bytes.isLetter && Bytes.isTitled false bs))
  | "isupper" => some (.bool (bs.any Bytes.isCapital && !bs.any Bytes.isSmall))
  | "islower" => some (.bool (bs.any Bytes.isSmall && !bs.any Bytes.isCapital))
  | "isascii" => some (.bool (bs.all (· < 128)))
  | _ => none

/-- The text of some bytes in an encoding. That of no bytes is empty whatever the encoding is
called, and it is not looked up. -/
def decoded (bs : List UInt8) (arguments : List Value) : Action Value := do
  if bs.isEmpty && arguments.all (·.asText?.isSome) then return .text ""
  let (encoding, rule) ← encodingOf arguments
  return .text (Text.ofCodes (← ofCause (encoding.decode rule bs)))

/-- What stands between the digits of bytes: one ASCII character. -/
def digitSeparator (v : Value) : Action Char := do
  if (← length v) ≠ 1 then fail .longSeparator
  let codes ← match v, v.asText? with
    | .bytes bs, _ => pure (bs.map UInt8.toNat)
    | _, some s => pure ((Text.codes s).map Text.Code.toNat)
    | _, none => wrongType
  if codes.all (· < 128) then return Char.ofNat (codes.headD 0) else fail .foreignSeparator

/-- The digits of bytes, with a separator between groups of them. -/
def digitsOf (bs : List UInt8) (arguments : List Value) : Action Value := do
  let digits := Bytes.hexDigits bs
  match arguments with
  | [] => return .text (String.ofList digits.flatten)
  | separator :: rest => do
    let size ← fitting shortWord (rest.headD (.int 1))
    let separator ← digitSeparator separator
    let groups := if size = 0 then [digits]
      else if 0 < size then Bytes.groupsFromEnd size.toNat digits
      else Bytes.groups size.natAbs digits.length digits
    return .text (String.ofList ([separator].intercalate (groups.map List.flatten)))

/-- Bytes read from their digits, between which blanks may stand. `place` is where the rest of the
text begins, and each step takes a character, so `fuel` is the length of the text. -/
def bytesFromDigits : Nat → Nat → List Text.Code → Except Cause (List UInt8)
  | 0, _, _ | _, _, [] => .ok []
  | fuel + 1, place, c :: cs =>
    let value := fun (c : Text.Code) => c.char?.bind fun c =>
      if c.isDigit then some (c.toNat - 48)
      else if 'a' ≤ c.toLower && c.toLower ≤ 'f' then some (c.toLower.toNat - 87) else none
    if c.is fun c => c.toNat < 128 && Bytes.isBlank (Bytes.ofChar c) then
      bytesFromDigits fuel (place + 1) cs
    else
      match value c, cs with
      | none, _ => .error (.notHex place)
      | some _, [] => .error (.notHex (place + 1))
      | some high, d :: cs =>
        match value d with
        | none => .error (.notHex (place + 1))
        | some low => do
          return UInt8.ofNat (16 * high + low) :: (← bytesFromDigits fuel (place + 2) cs)

/-- Bytes replaced by those that a table has in their places; some are left out before. -/
def translatedBytes (bs : List UInt8) (table : Value) (dropped : Option Value) : Action Value := do
  let table ← table.hook?.mapM byteLettering.read
  if table.any (·.length ≠ 256) then fail .oddTable
  let dropped ← dropped.mapM byteLettering.read
  let kept := bs.filter fun b => !(dropped.getD []).contains b
  return .bytes (match table with
    | some table => kept.map fun b => table.getD b.toNat b
    | none => kept)

/-- A table for replacing bytes: those of one byte string by those of another. -/
def byteTable (old new : Value) : Action Value := do
  let old ← byteLettering.read old
  let new ← byteLettering.read new
  if old.length ≠ new.length then fail .unequalByteMaps
  let table := (List.range 256).map UInt8.ofNat
  return .bytes ((old.zip new).foldl (fun t p => t.set p.1.toNat p.2) table)

/-! ## Templates -/

/-- A byte in a template: a number or a byte string of one byte. -/
def templateByte (v : Value) : Except Cause String :=
  match v, v.asInt? with
  | .bytes [b], _ => .ok (Bytes.toChar b).toString
  | _, some n =>
    if 0 ≤ n && n < 256 then .ok (Char.ofNat n.toNat).toString
    else .error (.overflow "%c arg not in range(256)")
  | _, none => .error (.wrongType none)

/-- How a value fills a placeholder in a byte string, whose characters stand for bytes. -/
def byteFilling (w : World) (p : Text.Placeholder) (precision : Option Nat) (v : Value) :
    Except Cause Filling :=
  match p.conversion.char?.getD ' ' with
  | 's' | 'b' =>
    match v with
    | .bytes bs => .ok (Placeholder.textFilling precision (Bytes.text bs))
    | _ => .error (.wrongType none)
  | 'r' | 'a' => w.shownFilling precision v fun view => Text.asciiOnly view.quoted
  | 'c' => do return { body := ← templateByte v, isNumber := false }
  | c =>
    if "diuoxXeEfFgG".contains c then w.filling p precision v
    else .error (.unknownConversion (fun _ => true) p)

def TemplateKind.bytes : TemplateKind :=
  ⟨byteFilling, fun name => .bytes (name.map fun c => UInt8.ofNat c.toNat)⟩

/-- A byte string filled with the items of a tuple, or with one value. -/
def fillBytes (host : Host) (template : List UInt8) (v : Value) : Action Value := do
  let parts := Text.TemplatePart.ofText (Bytes.text template)
  let filled ← filledWith host .bytes parts v (← hasKeyedParts v)
  return .bytes (filled.toList.map Bytes.ofChar)

/-- **The methods of a byte string.** -/
def callBytes (host : Host) (bs : List UInt8) (name : String) (arguments : List Value) :
    Action Value := do
  match name, arguments with
  | "decode", arguments => decoded bs arguments
  | "hex", arguments => digitsOf bs arguments
  | "fromhex", [v] => do
    let cs ← textLettering.part v
    return .bytes (← ofCause (bytesFromDigits cs.length 0 cs))
  | "translate", table :: dropped => translatedBytes bs table dropped.head?
  | "maketrans", [old, new] => byteTable old new
  | "__add__", [v] => return .bytes (bs ++ (← byteLettering.read v))
  | "__mod__", [v] => fillBytes host bs v
  | "__rmod__", [.bytes template] => fillBytes host template (.bytes bs)
  | "__rmod__", [_] => return .notImplemented
  | "__bytes__", [] => return .bytes bs
  | "__getnewargs__", [] => Parts.tuple [.bytes bs]
  | name, arguments =>
    match formOfBytes bs name, byteLettering.method? bs name arguments with
    | some v, _ => return v
    | none, some result => result
    | none, none => wrongType

end Action

end TraitFactory
