import TraitFactory.Text.Field

/-!
# Texts with braces

A text may hold places for values, each between braces: the name of a value and a path to one of
its parts, how the value is converted, and a field specification, in which there may be places
again. A brace that is written twice stands for itself. The parts of a text are read one by one, so
that what is wrong with a later part shows only when it is reached.
-/

namespace TraitFactory

namespace Cause

def loneBrace (brace : Char) : Cause :=
  .badValue ("Single '" ++ brace.toString ++ "' encountered in format string")

def braceInName : Cause := .badValue "unexpected '\x7b' in field name"

def noConversion : Cause :=
  .badValue "end of string while looking for conversion specifier"

def afterConversion : Cause := .badValue "expected ':' after conversion specifier"

def unclosedField : Cause := .badValue "unmatched '\x7b' in format spec"

def unclosedName : Cause := .badValue "expected '\x7d' before end of string"

def unclosedBracket : Cause := .badValue "Missing ']' in format string"

def emptyPart : Cause := .badValue "Empty attribute in format string"

def afterBracket : Cause :=
  .badValue "Only '.' or '[' may follow ']' in format field specifier"

end Cause

namespace Text

/-- **A place for a value.** -/
structure Replacement where
  name : List Code
  conversion : Option Code := none
  spec : List Code := []
  deriving DecidableEq, Repr

namespace Replacement

/-- Codes that may stand inside brackets. -/
def isInside (c : Code) : Bool := c ≠ .char ']'

/-- Whether there are places in the field specification. -/
def isNested (r : Replacement) : Bool := r.spec.contains '\x7b'

/-- The name of a place, and what ended it. Brackets hold any characters. -/
def readName : Nat → List Code → List Code → Except Cause (List Code × Code × List Code)
  | 0, _, _ | _, _, [] => .error .unclosedName
  | fuel + 1, acc, c :: cs =>
    if c = '\x7b' then .error .braceInName
    else if c = '\x7d' || c = ':' || c = '!' then .ok (acc.reverse, c, cs)
    else if c = '[' then
      let inside := cs.takeWhile isInside
      readName fuel (inside.reverse ++ c :: acc) (cs.drop inside.length)
    else readName fuel (c :: acc) cs

/-- The field specification up to the brace that closes the place; `depth` is how many are open. -/
def readSpec : Nat → List Code → List Code → Except Cause (List Code × List Code)
  | _, _, [] => .error .unclosedField
  | depth, acc, c :: cs =>
    if c = '\x7b' then readSpec (depth + 1) (c :: acc) cs
    else if c = '\x7d' then
      match depth with
      | 0 => .ok (acc.reverse, cs)
      | depth + 1 => readSpec depth (c :: acc) cs
    else readSpec depth (c :: acc) cs

/-- What follows the name of a place. -/
def readRest (name : List Code) (ended : Code) (cs : List Code) :
    Except Cause (Replacement × List Code) :=
  let specified := fun (conversion : Option Code) (cs : List Code) => do
    let (spec, cs) ← readSpec 0 [] cs
    return (⟨name, conversion, spec⟩, cs)
  if ended = '\x7d' then .ok (⟨name, none, []⟩, cs)
  else if ended = ':' then specified none cs
  else
    match cs with
    | [] => .error .noConversion
    | [_] => .error .unclosedField
    | conversion :: c :: cs =>
      if c = '\x7d' then .ok (⟨name, some conversion, []⟩, cs)
      else if c = ':' then specified (some conversion) cs
      else .error .afterConversion

/-- A place after its opening brace. -/
def read (cs : List Code) : Except Cause (Replacement × List Code) := do
  let (name, ended, cs) ← readName (cs.length + 1) [] cs
  readRest name ended cs

end Replacement

/-! ## Parts of a text -/

def isBrace (c : Code) : Bool := c = '\x7b' || c = '\x7d'

/-- **The next part of a text with braces**: the codes before a place, the place if there is one,
and what is left. -/
def nextPart (cs : List Code) :
    Except Cause (List Code × Option Replacement × List Code) :=
  let before := cs.takeWhile (!isBrace ·)
  match cs.drop before.length with
  | [] => .ok (before, none, [])
  | [c] => .error (.loneBrace (if c = '\x7b' then '\x7b' else '\x7d'))
  | c :: d :: cs =>
    if c = d then .ok (before ++ [c], none, cs)
    else if c = '\x7b' then do
      let (r, cs) ← Replacement.read (d :: cs)
      return (before, some r, cs)
    else .error (.loneBrace '\x7d')

/-! ## Names -/

/-- A number that a name is, which is written in digits alone. -/
def indexOf? (cs : List Code) : Except Cause (Option Nat) :=
  if cs.isEmpty || !cs.all (·.is isDecimal) then .ok none
  else (Field.readNumber cs).map (·.1)

/-- A step on the way from a value to a part of it. -/
inductive PathStep where
  | attribute (name : String)
  | item (name : String)
  | position (n : Nat)
  deriving DecidableEq, Repr

def isPathMark (c : Code) : Bool := c = '.' || c = '['

/-- The name of a value, before the path to its part. -/
def pathHead (cs : List Code) : List Code × List Code :=
  (cs.takeWhile (!isPathMark ·), cs.dropWhile (!isPathMark ·))

/-- The next step of a path, with what is left. -/
def nextStep (cs : List Code) : Except Cause (Option (PathStep × List Code)) :=
  match cs with
  | [] => .ok none
  | .char '.' :: cs =>
    match pathHead cs with
    | ([], _) => .error .emptyPart
    | (name, rest) => .ok (some (.attribute (ofCodes name), rest))
  | .char '[' :: cs =>
    match cs.takeWhile Replacement.isInside, cs.dropWhile Replacement.isInside with
    | _, [] => .error .unclosedBracket
    | name, _ :: rest => do
      let index ← indexOf? name
      match name, index with
      | [], _ => throw .emptyPart
      | _, some n => return some (.position n, rest)
      | _, none => return some (.item (ofCodes name), rest)
  | _ => .error .afterBracket

/-- Each step takes at least one code. -/
theorem pathHead_append (cs : List Code) : (pathHead cs).1 ++ (pathHead cs).2 = cs :=
  List.takeWhile_append_dropWhile

end Text

end TraitFactory
