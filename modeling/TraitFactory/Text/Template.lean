import TraitFactory.Text.Code

/-!
# Templates

A template is a text with placeholders, each introduced by a percent sign and ended by the
letter of its conversion. Between the two may stand a key in brackets, flags, a width and a
precision; either number may be taken from the arguments.
-/

namespace TraitFactory.Text

/-- A number in a placeholder. -/
inductive Measure where
  | given (n : Nat)
  /-- The next argument. -/
  | argument
  deriving DecidableEq, Repr

structure Placeholder where
  flags : List Char
  width : Option Measure
  precision : Option Measure
  conversion : Code
  /-- Where the conversion stands in the template. -/
  index : Nat
  deriving DecidableEq, Repr

namespace Placeholder

def leftAligned (p : Placeholder) : Bool := p.flags.contains '-'
def signed (p : Placeholder) : Bool := p.flags.contains '+'
def spaced (p : Placeholder) : Bool := p.flags.contains ' '
def alternate (p : Placeholder) : Bool := p.flags.contains '#'
def zeroFilled (p : Placeholder) : Bool := p.flags.contains '0'

end Placeholder

/-- **Parts of a template.** -/
inductive TemplatePart where
  | code (c : Code)
  | placeholder (p : Placeholder)
  /-- The key under which the argument of the next placeholder is found. -/
  | key (name : List Code)
  /-- A key that the template ends in the midst of. -/
  | unfinishedKey
  /-- A placeholder that the template ends in the midst of, as far as it goes. -/
  | unfinished (width precision : Option Measure)
  deriving DecidableEq, Repr

namespace TemplatePart

def isFlag (c : Char) : Bool := c = '-' || c = '+' || c = ' ' || c = '#' || c = '0'

def isDigit (c : Code) : Bool := c.is Char.isDigit

/-- Sizes of numbers have no meaning here. -/
def isSize (c : Char) : Bool := c = 'h' || c = 'l' || c = 'L'

def readMeasure (cs : List Code) : Option Measure × List Code :=
  match cs with
  | .char '*' :: cs => (some .argument, cs)
  | cs =>
    match cs.takeWhile isDigit with
    | [] => (none, cs)
    | ds => (some (.given (ds.foldl (fun n c => 10 * n + (c.toNat - 48)) 0)), cs.dropWhile isDigit)

/-- A point with no number after it stands for a precision of none. -/
def readPrecision (cs : List Code) : Option Measure × List Code :=
  match cs with
  | .char '.' :: cs =>
    let (m, cs) := readMeasure cs
    (some (m.getD (.given 0)), cs)
  | cs => (none, cs)

def skipSize (cs : List Code) : List Code :=
  match cs with
  | c :: rest => if c.is isSize then rest else cs
  | [] => []

/-- A key up to the bracket that closes it, with what is left; `depth` is how many brackets are
open within it. -/
def readKey (depth : Nat) (key : List Code) : List Code → Option (List Code × List Code)
  | [] => none
  | .char ')' :: cs =>
    match depth with
    | 0 => some (key.reverse, cs)
    | depth + 1 => readKey depth (.char ')' :: key) cs
  | .char '(' :: cs => readKey (depth + 1) (.char '(' :: key) cs
  | c :: cs => readKey depth (c :: key) cs

/-- A placeholder from its flags on, with what is left; `size` is the length of the template. -/
def readPlaceholder (size : Nat) (cs : List Code) : TemplatePart × List Code :=
  let flags := (cs.takeWhile (·.is isFlag)).filterMap Code.char?
  let (width, cs) := readMeasure (cs.dropWhile (·.is isFlag))
  let (precision, cs) := readPrecision cs
  match skipSize cs with
  | [] => (.unfinished width precision, [])
  | c :: rest => (.placeholder ⟨flags, width, precision, c, size - rest.length - 1⟩, rest)

/-- The parts after a percent sign. A percent sign right after another one stands for itself. -/
def readMarked (size : Nat) (cs : List Code) : List TemplatePart × List Code :=
  match cs with
  | .char '%' :: cs => ([.code '%'], cs)
  | .char '(' :: cs =>
    match readKey 0 [] cs with
    | none => ([.unfinishedKey], [])
    | some (name, cs) =>
      let (part, cs) := readPlaceholder size cs
      ([.key name, part], cs)
  | cs =>
    let (part, cs) := readPlaceholder size cs
    ([part], cs)

/-- Each step takes a character, so `fuel` is the template's length. -/
def readParts (size : Nat) : Nat → List Code → List TemplatePart
  | 0, _ => []
  | _, [] => []
  | fuel + 1, .char '%' :: cs =>
    let (parts, cs) := readMarked size cs
    parts ++ readParts size fuel cs
  | fuel + 1, c :: cs => .code c :: readParts size fuel cs

/-- **The parts of a template.** -/
def ofText (s : String) : List TemplatePart :=
  let cs := codes s
  readParts cs.length cs.length cs

/-- A template without percent signs is nothing but its codes. -/
theorem readParts_of_not_mem {size fuel : Nat} {cs : List Code} (hfuel : cs.length ≤ fuel)
    (h : .char '%' ∉ cs) : readParts size fuel cs = cs.map .code := by
  induction cs generalizing fuel with
  | nil => cases fuel <;> rfl
  | cons c cs ih =>
    obtain ⟨fuel, rfl⟩ : ∃ n, fuel = n + 1 := ⟨fuel - 1, by simp at hfuel; omega⟩
    have hc : c ≠ .char '%' := fun hc => h (by simp [hc])
    rw [readParts]
    · rw [ih (by simpa using hfuel) (fun hmem => h (by simp [hmem]))]
      rfl
    · exact hc

end TemplatePart

end TraitFactory.Text
