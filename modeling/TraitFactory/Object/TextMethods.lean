import TraitFactory.Object.Lettering
import TraitFactory.Object.Templates
import TraitFactory.Text.Blank
import TraitFactory.Text.Case
import TraitFactory.Text.Classes
import TraitFactory.Text.Encoding

/-!
# Methods of texts

What texts do when a method of theirs is called, besides what they have in common with byte
strings: their letters take other forms and are told apart by their classes, codes are replaced by
others, places are filled with values, and texts are written as bytes.
-/

namespace TraitFactory

open Text (Code codes ofCodes)

/-- Whether a character ends a line. -/
def Text.isLineEnd (c : Char) : Bool :=
  let n := c.toNat
  (0x0A ≤ n && n ≤ 0x0D) || (0x1C ≤ n && n ≤ 0x1E) || n = 0x85 || n = 0x2028 || n = 0x2029

/-- Texts as sequences of letters. -/
def textLettering : Lettering Code where
  unit := .char
  isBlank c := c.is Text.isBlank
  endsLine c := c.is Text.isLineEnd
  read? v := v.asText?.map codes
  part v :=
    match v.asText? with
    | some s => return codes s
    | none => Action.wrongType
  write cs := .text (ofCodes cs)
  notFound := "substring not found"

namespace Cause

def notACode : Cause := .badValue "character mapping must be in range(0x110000)"

def unequalMaps : Cause :=
  .badValue "the first two maketrans arguments must have equal length"

def keyTooLong : Cause :=
  .badValue "string keys in translate table must be of length 1"

end Cause

namespace Action

open Text

/-! ## Forms and classes -/

/-- Whether all letters of a text, of which there must be some, are of a class. -/
def allAre (p : Char → Bool) (cs : List Code) : Bool := !cs.isEmpty && cs.all (·.is p)

/-- Whether there are letters with case, all of them of one form. -/
def allCased (form : Char → Bool) (cs : List Code) : Bool :=
  let cased := cs.filter (·.is isCased)
  !cased.isEmpty && cased.all (·.is form)

/-- The methods of a text that take no more than the text. -/
def formOf (cs : List Code) : String → Option Value
  | "upper" => some (.text (ofCodes (toCapitals cs)))
  | "lower" => some (.text (ofCodes (toSmall cs)))
  | "capitalize" => some (.text (ofCodes (capitalized cs)))
  | "swapcase" => some (.text (ofCodes (swappedFrom [] cs)))
  | "casefold" => some (.text (ofCodes (folded cs)))
  | "title" => some (.text (ofCodes (titledFrom [] cs)))
  | "isalpha" => some (.bool (allAre isLetter cs))
  | "isalnum" => some (.bool (allAre isLetterOrNumeral cs))
  | "isdecimal" => some (.bool (allAre isDecimal cs))
  | "isdigit" => some (.bool (allAre isDigit cs))
  | "isnumeric" => some (.bool (allAre isNumeral cs))
  | "isspace" => some (.bool (allAre isBlank cs))
  | "isidentifier" => some (.bool (isIdentifier cs))
  | "isprintable" => some (.bool (cs.all (·.is isPrintable)))
  | "istitle" => some (.bool (cs.any (·.is isCased) && isTitled false cs))
  | "isupper" => some (.bool (allCased isCapital cs))
  | "islower" => some (.bool (allCased isSmall cs))
  | "isascii" => some (.bool (cs.all (·.toNat < 128)))
  | _ => none

/-! ## Bytes -/

/-- The names of an encoding and of a rule for errors, as they are given or as usual. -/
def encodingOf (arguments : List Value) : Action (Encoding × String) := do
  let name := fun (v : Option Value) (usual : String) => match v with
    | none => pure usual
    | some v => match v.asText? with
      | some s => pure s
      | none => wrongType
  let encoding ← name arguments[0]? "utf-8"
  let rule ← name arguments[1]? "strict"
  return (← ofCause (Encoding.find encoding), rule)

def encoded (cs : List Code) (arguments : List Value) : Action Value := do
  let (encoding, rule) ← encodingOf arguments
  return .bytes (← ofCause (encoding.encode rule cs))

/-! ## Replacing codes -/

/-- What a code is replaced by: what a table has under its number, if it has anything. -/
def translatedCode (host : Host) (table : Value) (c : Code) : Action (List Code) := do
  match ← attempt (getItem host table (.int c.toNat)) with
  | .error e => if e.cause.lacksPart then return [c] else throw e
  | .ok .null => return []
  | .ok v =>
    match v.asText?, v.asInt? with
    | some s, _ => return codes s
    | none, some n =>
      if 0 ≤ n && n < 0x110000 then return [Code.ofNat n.toNat] else fail .notACode
    | none, none => wrongType

def translated (host : Host) (table : Value) (cs : List Code) : Action Value := do
  return .text (ofCodes (← cs.mapM (translatedCode host table)).flatten)

/-- A table for replacing codes, from a dictionary whose keys are codes or their numbers. -/
def tableFromDict (entries : List (Value × Value)) : Action Value := do
  newDict (← entries.mapM fun e =>
    match e.1.asText?, e.1.asInt? with
    | some s, _ =>
      match codes s with
      | [c] => return (.int c.toNat, e.2)
      | _ => fail .keyTooLong
    | none, some _ => return e
    | none, none => wrongType)

/-- A table for replacing codes: the codes of one text by those of another, and those of a third by
nothing. -/
def tableFromTexts (arguments : List Value) : Action Value := do
  match ← arguments.mapM textLettering.part with
  | old :: new :: dropped => do
    if old.length ≠ new.length then fail .unequalMaps
    let replaced := (old.zip new).map fun p => (Value.int p.1.toNat, Value.int p.2.toNat)
    newDict (replaced ++ dropped.flatten.map fun c => (.int c.toNat, .null))
  | _ => wrongType

def translationTable (arguments : List Value) : Action Value := do
  match arguments with
  | [v] =>
    match (← get).entries? v with
    | some entries => tableFromDict entries
    | none => wrongType
  | _ => tableFromTexts arguments

/-! ## Calls -/

/-- The entries of keywords as a table, if there are any. -/
def keywordTable (keywords : List (String × Value)) : Action (Option Value) := do
  if keywords.isEmpty then return none
  else some <$> newDict (keywords.map fun k => (.text k.1, k.2))

/-- Whether an operand of a template's operation is a text as well. -/
def fillFrom (host : Host) (v : Value) (s : String) : Action Value :=
  match v.asText? with
  | some template => fillTemplate host template (.text s)
  | none => return .notImplemented

/-- Places filled in a text that a value is. Without places it stays the value. -/
def filledText (host : Host) (v : Value) (supply : Supply) (cs : List Code) : Action Value :=
  if !cs.isEmpty && !cs.contains '\x7b' && !cs.contains '\x7d' then return v
  else fillPlaces host supply cs

/-- The lettering in which a text as a whole is the value that it was taken from. -/
def wholeKept (v : Value) (cs : List Code) : Lettering Code :=
  { textLettering with
    write := fun part => if part = cs && !cs.isEmpty then v else textLettering.write part }

/-- How many bytes each code of a text takes when all take as many. -/
def codeSize (cs : List Code) : Nat :=
  if cs.all (·.toNat < 0x100) then 1 else if cs.all (·.toNat < 0x10000) then 2 else 4

/-- Whether a method keeps a value whose text it does not cut: always where the text is cut once,
and otherwise where one look at what separates the parts shows that the text does not have it. -/
def keepsWhole (cs : List Code) (name : String) (arguments : List Value) : Bool :=
  match name, arguments with
  | "partition", _ | "rpartition", _ => true
  | "split", separator :: _ | "rsplit", separator :: _ =>
    match separator.asText?.map codes with
    | some between => cs.length < between.length || codeSize cs < codeSize between
    | none => false
  | _, _ => false

/-- **The methods of a text**, which is the text of a value. -/
def callText (host : Host) (receiver : Value) (s : String) (name : String)
    (arguments : List Value) (keywords : List (String × Value)) : Action Value := do
  let cs := codes s
  match name, arguments with
  | "encode", arguments => encoded cs arguments
  | "translate", [table] => translated host table cs
  | "maketrans", arguments => translationTable arguments
  | "format", values => filledText host receiver ⟨some values, ← keywordTable keywords⟩ cs
  | "format_map", [table] => filledText host receiver ⟨none, some table⟩ cs
  | "__mod__", [v] => do
    let filled ← fillTemplate host s v
    return if s.contains '%' then filled else receiver
  | "__rmod__", [v] => fillFrom host v s
  | "__add__", [v] => return .text (s ++ ofCodes (← textLettering.part v))
  | "__getnewargs__", [] => Parts.tuple [.text s]
  | name, arguments =>
    let lettering := if keepsWhole cs name arguments then wholeKept receiver cs else textLettering
    match formOf cs name, lettering.method? cs name arguments with
    | some v, _ => return v
    | none, some result => result
    | none, none => wrongType

end Action

end TraitFactory
