import TraitFactory.Json.Basic
import TraitFactory.Number.Length
import TraitFactory.Table
import TraitFactory.Text.Code

/-!
# Reading JSON

A text is read as one JSON value with blanks around it. `NaN`, `Infinity` and `-Infinity` count
as numbers; control characters inside strings do not count as characters. Of equal keys the
last one decides the value and the first one the place.
-/

namespace TraitFactory

/-- Why a text cannot be read. -/
inductive JsonError where
  | malformed
  /-- An integer of more digits than are read. -/
  | longInteger (digits : Nat)
  deriving DecidableEq, Repr

namespace Json

abbrev Reading (α : Type) := Except JsonError (α × List Char)

def isBlank (c : Char) : Bool := c = ' ' || c = '\t' || c = '\n' || c = '\r'

def skipBlanks (cs : List Char) : List Char := cs.dropWhile isBlank

/-! ## Numbers -/

def digitsValue (cs : List Char) : Nat := cs.foldl (fun n c => 10 * n + (c.toNat - 48)) 0

/-- A whole part: a lone zero, or digits that start with none. -/
def readWhole (cs : List Char) : Option (List Char × List Char) :=
  match cs with
  | '0' :: cs => some (['0'], cs)
  | c :: _ =>
    if c.isDigit then some (cs.takeWhile Char.isDigit, cs.dropWhile Char.isDigit) else none
  | [] => none

/-- The digits after a point; none where no digit follows the point. -/
def readFraction (cs : List Char) : List Char × List Char :=
  match cs with
  | '.' :: rest =>
    match rest.takeWhile Char.isDigit with
    | [] => ([], cs)
    | digits => (digits, rest.dropWhile Char.isDigit)
  | _ => ([], cs)

def readSign : List Char → Bool × List Char
  | '-' :: cs => (true, cs)
  | '+' :: cs => (false, cs)
  | cs => (false, cs)

/-- The exponent after an `e`; none where no digit follows. -/
def readExponent (cs : List Char) : Option Int × List Char :=
  match cs with
  | c :: rest =>
    if c = 'e' || c = 'E' then
      let (negative, rest) := readSign rest
      match rest.takeWhile Char.isDigit with
      | [] => (none, cs)
      | digits =>
        let n : Int := digitsValue digits
        (some (if negative then -n else n), rest.dropWhile Char.isDigit)
    else (none, cs)
  | [] => (none, cs)

/-- A number without its sign. -/
def readMagnitude (negative : Bool) (cs : List Char) : Reading Json :=
  match readWhole cs with
  | none => .error .malformed
  | some (whole, cs) =>
    let (fraction, cs) := readFraction cs
    let (exponent, cs) := readExponent cs
    if fraction.isEmpty && exponent.isNone then
      if whole.length > Number.maxDigits then .error (.longInteger whole.length)
      else
        let n : Int := digitsValue whole
        .ok (.int (if negative then -n else n), cs)
    else
      let x := Double.ofScientific (digitsValue (whole ++ fraction))
        (exponent.getD 0 - fraction.length)
      .ok (.float (if negative then x.negate else x), cs)

/-! ## Strings -/

def hexValue? (c : Char) : Option Nat :=
  if c.isDigit then some (c.toNat - 48)
  else if 'a' ≤ c && c ≤ 'f' then some (c.toNat - 87)
  else if 'A' ≤ c && c ≤ 'F' then some (c.toNat - 55)
  else none

/-- Four hexadecimal digits. -/
def readUnit : List Char → Option (Nat × List Char)
  | a :: b :: c :: d :: cs => do
    let n := 16 * (16 * (16 * (← hexValue? a) + (← hexValue? b)) + (← hexValue? c))
      + (← hexValue? d)
    return (n, cs)
  | _ => none

/-- The code of a `\u` escape, of which two may form a pair. -/
def readCode (cs : List Char) : Option (Text.Code × List Char) := do
  let (high, rest) ← readUnit cs
  match rest with
  | '\\' :: 'u' :: more =>
    if Text.isHighHalf high then
      match readUnit more with
      | some (low, more) =>
        if Text.isLowHalf low then return (Text.Code.ofPair high low, more)
        else return (Text.Code.ofNat high, rest)
      | none => return (Text.Code.ofNat high, rest)
    else return (Text.Code.ofNat high, rest)
  | _ => return (Text.Code.ofNat high, rest)

def escaped? : Char → Option Char
  | '"' => some '"'
  | '\\' => some '\\'
  | '/' => some '/'
  | 'b' => some '\x08'
  | 'f' => some '\x0c'
  | 'n' => some '\n'
  | 'r' => some '\r'
  | 't' => some '\t'
  | _ => none

/-- The rest of a string after its opening quote. Each step takes at least one character, so
`fuel` is the length of the text. -/
def readString : Nat → List Char → List Char → Reading String
  | _, acc, '"' :: cs => .ok (String.ofList acc.reverse, cs)
  | fuel + 1, acc, '\\' :: 'u' :: cs =>
    match readCode cs with
    | some (c, cs) => readString fuel (c.written.reverse ++ acc) cs
    | none => .error .malformed
  | fuel + 1, acc, '\\' :: e :: cs =>
    match escaped? e with
    | some c => readString fuel (c :: acc) cs
    | none => .error .malformed
  | fuel + 1, acc, c :: cs =>
    if c.toNat < 32 || c = '\\' then .error .malformed else readString fuel (c :: acc) cs
  | _, _, _ => .error .malformed

/-! ## Values -/

/-- The words that are values. -/
def words : List (List Char × Json) :=
  [("null".toList, .null), ("true".toList, .bool true), ("false".toList, .bool false),
    ("NaN".toList, .float Double.nan), ("Infinity".toList, .float Double.infinity),
    ("-Infinity".toList, .float Double.infinity.negate)]

def readWord (cs : List Char) : Option (Json × List Char) :=
  words.findSome? fun w =>
    if w.1.isPrefixOf cs then some (w.2, cs.drop w.1.length) else none

def readScalar (cs : List Char) : Reading Json :=
  match readWord cs with
  | some r => .ok r
  | none =>
    match cs with
    | '-' :: cs => readMagnitude true cs
    | cs => readMagnitude false cs

mutual

/-- A value. Every level of nesting takes at least one character, so `fuel` is the length of the
text. -/
def readValue : Nat → List Char → Except JsonError (Json × List Char)
  | 0, _ => .error .malformed
  | fuel + 1, cs =>
    match cs with
    | '"' :: cs => do
      let (s, cs) ← readString cs.length [] cs
      return (.text s, cs)
    | '[' :: cs =>
      match skipBlanks cs with
      | ']' :: cs => .ok (.list [], cs)
      | cs => do
        let (items, cs) ← readItems fuel [] cs
        return (.list items, cs)
    | '\x7b' :: cs =>
      match skipBlanks cs with
      | '\x7d' :: cs => .ok (.object [], cs)
      | cs => do
        let (entries, cs) ← readEntries fuel ∅ cs
        return (.object entries.entries, cs)
    | cs => readScalar cs

/-- The items of a list, of which there is at least one more. -/
def readItems : Nat → List Json → List Char → Except JsonError (List Json × List Char)
  | 0, _, _ => .error .malformed
  | fuel + 1, acc, cs => do
    let (j, cs) ← readValue fuel cs
    match skipBlanks cs with
    | ',' :: cs => readItems fuel (j :: acc) (skipBlanks cs)
    | ']' :: cs => return ((j :: acc).reverse, cs)
    | _ => .error .malformed

/-- The entries of an object, of which there is at least one more. -/
def readEntries : Nat → Table Json → List Char →
    Except JsonError (Table Json × List Char)
  | 0, _, _ => .error .malformed
  | fuel + 1, acc, cs => do
    match cs with
    | '"' :: cs =>
      let (key, cs) ← readString cs.length [] cs
      match skipBlanks cs with
      | ':' :: cs =>
        let (j, cs) ← readValue fuel (skipBlanks cs)
        match skipBlanks cs with
        | ',' :: cs => readEntries fuel (acc.insert key j) (skipBlanks cs)
        | '\x7d' :: cs => return (acc.insert key j, cs)
        | _ => .error .malformed
      | _ => .error .malformed
    | _ => .error .malformed

end

/-- **Reads a text as one JSON value.** -/
def read (s : String) : Except JsonError Json := do
  let cs := s.toList
  let (j, rest) ← readValue (2 * cs.length + 2) (skipBlanks cs)
  if (skipBlanks rest).isEmpty then return j else .error .malformed

end Json

end TraitFactory
