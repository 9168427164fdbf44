import TraitFactory.Json.Reading
import TraitFactory.Toml.Basic

/-!
# Strings, numbers and dates in TOML

Readers of the parts of a document that hold no other values. Each takes the rest of the text
and gives what it read with what is left, or nothing when the text is malformed.
-/

namespace TraitFactory.Toml

abbrev Rest := List Char

def isSpace (c : Char) : Bool := c = ' ' || c = '\t'

def isSpaceOrNewline (c : Char) : Bool := isSpace c || c = '\n'

def skipSpace (cs : Rest) : Rest := cs.dropWhile isSpace

/-- Control characters, which neither strings nor comments may hold. -/
def isControl (c : Char) : Bool := (c.toNat < 32 && c ≠ '\t') || c.toNat = 127

/-! ## Strings -/

def hexNumber (cs : List Char) : Option Nat :=
  cs.foldlM (fun n c => (Json.hexValue? c).map fun d => 16 * n + d) 0

/-- The character of an escape with that many hexadecimal digits. -/
def readHexChar (count : Nat) (cs : Rest) : Option (Char × Rest) := do
  let digits := cs.take count
  if digits.length ≠ count then none
  else
    let n ← hexNumber digits
    if n < 0xD800 || (0xDFFF < n && n < 0x110000) then return (Char.ofNat n, cs.drop count)
    else none

def escaped? : Char → Option Char
  | 'b' => some '\x08'
  | 't' => some '\t'
  | 'n' => some '\n'
  | 'f' => some '\x0c'
  | 'r' => some '\r'
  | '"' => some '"'
  | '\\' => some '\\'
  | _ => none

/-- What follows a backslash: the characters it stands for. At the end of a line of a string
over several lines it stands for none and joins the lines. -/
def readEscape (multiline : Bool) (cs : Rest) : Option (List Char × Rest) :=
  match cs with
  | [] => none
  | c :: rest =>
    if multiline && c = '\n' then some ([], rest.dropWhile isSpaceOrNewline)
    else if multiline && isSpace c then
      match skipSpace rest with
      | [] => some ([], [])
      | '\n' :: rest => some ([], rest.dropWhile isSpaceOrNewline)
      | _ => none
    else if c = 'u' then (readHexChar 4 rest).map fun r => ((Text.Code.char r.1).written, r.2)
    else if c = 'U' then (readHexChar 8 rest).map fun r => ((Text.Code.char r.1).written, r.2)
    else (escaped? c).map fun d => ([d], rest)

/-- The rest of a basic string. Each step takes a character, so `fuel` is the text's length. -/
def readBasic (multiline : Bool) : Nat → List Char → Rest → Option (List Char × Rest)
  | 0, _, _ => none
  | fuel + 1, acc, cs =>
    match cs with
    | [] => none
    | '"' :: rest =>
      if multiline then
        match rest with
        | '"' :: '"' :: rest => some (acc.reverse, rest)
        | rest => readBasic multiline fuel ('"' :: acc) rest
      else some (acc.reverse, rest)
    | '\\' :: rest =>
      match readEscape multiline rest with
      | some (chars, rest) => readBasic multiline fuel (chars.reverse ++ acc) rest
      | none => none
    | c :: rest =>
      if isControl c && !(multiline && c = '\n') then none
      else readBasic multiline fuel (c :: acc) rest

/-- The rest of a literal string, in which nothing is escaped. -/
def readLiteral (multiline : Bool) : List Char → Rest → Option (List Char × Rest)
  | _, [] => none
  | acc, '\'' :: rest =>
    if multiline then
      match rest with
      | '\'' :: '\'' :: rest => some (acc.reverse, rest)
      | _ => readLiteral multiline ('\'' :: acc) rest
    else some (acc.reverse, rest)
  | acc, c :: rest =>
    if isControl c && !(multiline && c = '\n') then none
    else readLiteral multiline (c :: acc) rest

/-- Up to two quotes may stand before the three that close a string. -/
def takeQuotes (quote : Char) (s : List Char) (rest : Rest) : String × Rest :=
  match rest with
  | a :: b :: more =>
    if a = quote then
      if b = quote then (String.ofList (s ++ [quote, quote]), more)
      else (String.ofList (s ++ [quote]), b :: more)
    else (String.ofList s, rest)
  | [a] => if a = quote then (String.ofList (s ++ [quote]), []) else (String.ofList s, rest)
  | [] => (String.ofList s, rest)

/-- A newline right after the opening quotes does not belong to the string. -/
def skipNewline : Rest → Rest
  | '\n' :: cs => cs
  | cs => cs

/-- A string on one line. -/
def readLineString (cs : Rest) : Option (String × Rest) :=
  match cs with
  | '"' :: cs => (readBasic false (cs.length + 1) [] cs).map fun r => (String.ofList r.1, r.2)
  | '\'' :: cs => (readLiteral false [] cs).map fun r => (String.ofList r.1, r.2)
  | _ => none

def readString (cs : Rest) : Option (String × Rest) :=
  match cs with
  | '"' :: '"' :: '"' :: cs =>
    let cs := skipNewline cs
    (readBasic true (cs.length + 1) [] cs).map fun r => takeQuotes '"' r.1 r.2
  | '\'' :: '\'' :: '\'' :: cs =>
    (readLiteral true [] (skipNewline cs)).map fun r => takeQuotes '\'' r.1 r.2
  | cs => readLineString cs

/-! ## Numbers -/

/-- Digits, between which single underscores may stand. -/
def readDigits (isDigit : Char → Bool) : Rest → List Char × Rest
  | [] => ([], [])
  | '_' :: c :: cs =>
    if isDigit c then
      let (ds, rest) := readDigits isDigit cs
      (c :: ds, rest)
    else ([], '_' :: c :: cs)
  | c :: cs =>
    if isDigit c then
      let (ds, rest) := readDigits isDigit cs
      (c :: ds, rest)
    else ([], c :: cs)

/-- Digits of which there must be one at once. -/
def readDigitsFrom (isDigit : Char → Bool) (cs : Rest) : Option (List Char × Rest) :=
  match cs with
  | c :: _ => if isDigit c then some (readDigits isDigit cs) else none
  | [] => none

def isHexDigit (c : Char) : Bool := (Json.hexValue? c).isSome

def baseValue (base : Nat) (ds : List Char) : Nat :=
  ds.foldl (fun n c => base * n + (Json.hexValue? c).getD 0) 0

/-- An integer whose base is marked. -/
def readBased (cs : Rest) : Option (Toml × Rest) :=
  match cs with
  | '0' :: 'x' :: cs => (readDigitsFrom isHexDigit cs).map fun r => (.int (baseValue 16 r.1), r.2)
  | '0' :: 'b' :: cs =>
    (readDigitsFrom (fun c => c = '0' || c = '1') cs).map fun r => (.int (baseValue 2 r.1), r.2)
  | '0' :: 'o' :: cs =>
    (readDigitsFrom (fun c => '0' ≤ c && c ≤ '7') cs).map fun r => (.int (baseValue 8 r.1), r.2)
  | _ => none

/-- Whole digits, which start with no zero unless they are one. -/
def readWhole (cs : Rest) : Option (List Char × Rest) :=
  match cs with
  | '0' :: cs => some (['0'], cs)
  | cs => readDigitsFrom Char.isDigit cs

def readFraction (cs : Rest) : List Char × Rest :=
  match cs with
  | '.' :: rest => (readDigitsFrom Char.isDigit rest).getD ([], cs)
  | _ => ([], cs)

def readExponent (cs : Rest) : Option Int × Rest :=
  match cs with
  | c :: rest =>
    if c = 'e' || c = 'E' then
      let (negative, rest) := Json.readSign rest
      match readDigitsFrom Char.isDigit rest with
      | some (ds, rest) =>
        let n : Int := Json.digitsValue ds
        (some (if negative then -n else n), rest)
      | none => (none, cs)
    else (none, cs)
  | [] => (none, cs)

def readDecimal (cs : Rest) : Option (Toml × Rest) := do
  let (negative, cs) := Json.readSign cs
  let (whole, cs) ← readWhole cs
  let (fraction, cs) := readFraction cs
  let (exponent, cs) := readExponent cs
  if fraction.isEmpty && exponent.isNone then
    let n : Int := Json.digitsValue whole
    return (.int (if negative then -n else n), cs)
  else
    let x := Double.ofScientific (Json.digitsValue (whole ++ fraction))
      (exponent.getD 0 - fraction.length)
    return (.float (if negative then x.negate else x), cs)

/-- The words for the numbers that are not finite. -/
def readNamedNumber (cs : Rest) : Option (Toml × Rest) :=
  let (negative, rest) := Json.readSign cs
  let signed := fun (x : Double) => Toml.float (if negative then x.negate else x)
  match rest with
  | 'i' :: 'n' :: 'f' :: rest => some (signed Double.infinity, rest)
  | 'n' :: 'a' :: 'n' :: rest => some (signed Double.nan, rest)
  | _ => none

def readNumber (cs : Rest) : Option (Toml × Rest) :=
  (readBased cs).or ((readDecimal cs).or (readNamedNumber cs))

/-! ## Dates and times -/

/-- Exactly so many digits. -/
def readFixed (count : Nat) (cs : Rest) : Option (Nat × Rest) :=
  let ds := cs.take count
  if ds.length = count && ds.all Char.isDigit then some (Json.digitsValue ds, cs.drop count)
  else none

def readChar (p : Char → Bool) : Rest → Option Rest
  | c :: cs => if p c then some cs else none
  | [] => none

/-- Two digits up to a limit. -/
def readPart (limit : Nat) (cs : Rest) : Option Rest := do
  let (n, cs) ← readFixed 2 cs
  if n ≤ limit then some cs else none

/-- Fractions of a second. -/
def skipFraction (cs : Rest) : Rest :=
  match cs with
  | '.' :: c :: rest => if c.isDigit then rest.dropWhile Char.isDigit else cs
  | _ => cs

def readTime (cs : Rest) : Option Rest := do
  let cs ← readChar (· = ':') (← readPart 23 cs)
  let cs ← readChar (· = ':') (← readPart 59 cs)
  return skipFraction (← readPart 59 cs)

/-- The offset of a time; a time may have none. -/
def skipOffset (cs : Rest) : Rest :=
  let offset := do
    let cs ← readChar (fun c => c = '+' || c = '-') cs
    readPart 59 (← readChar (· = ':') (← readPart 23 cs))
  match cs with
  | 'Z' :: rest | 'z' :: rest => rest
  | cs => offset.getD cs

def isLeapYear (y : Nat) : Bool := y % 4 = 0 && (y % 100 ≠ 0 || y % 400 = 0)

def daysIn (year month : Nat) : Nat :=
  if month = 2 then if isLeapYear year then 29 else 28
  else if [4, 6, 9, 11].contains month then 30
  else 31

/-- Year, month and day, as far as their form goes. -/
def readDateParts (cs : Rest) : Option ((Nat × Nat × Nat) × Rest) := do
  let (year, cs) ← readFixed 4 cs
  let (month, cs) ← readFixed 2 (← readChar (· = '-') cs)
  let (day, cs) ← readFixed 2 (← readChar (· = '-') cs)
  if 1 ≤ month && month ≤ 12 && 1 ≤ day && day ≤ 31 then some ((year, month, day), cs) else none

/-- A date alone or with a time. The outer option tells whether there is a date at all, the
inner one whether there is such a day. -/
def readDate (cs : Rest) : Option (Option (Toml × Rest)) := do
  let ((year, month, day), cs) ← readDateParts cs
  let withTime := do
    let cs ← readChar (fun c => c = 'T' || c = 't' || c = ' ') cs
    return (Toml.datetime, skipOffset (← readTime cs))
  if year = 0 || daysIn year month < day then return none
  else return some (withTime.getD (.date, cs))

end TraitFactory.Toml
