import TraitFactory.Json.Basic
import TraitFactory.Text.Quoted

/-!
# Writing JSON

The text of a JSON value, on one line or indented. Everything outside ASCII is written by its
UTF-16 units.
-/

namespace TraitFactory

namespace Json

def unitEscape (n : Nat) : String := "\\u" ++ Text.hex 4 n

/-- Characters of the higher planes are written as a pair of units. -/
def numberEscape (n : Nat) : String :=
  if n < 0x10000 then unitEscape n
  else
    let m := n - 0x10000
    unitEscape (0xD800 + m / 0x400) ++ unitEscape (0xDC00 + m % 0x400)

def escapeChar (c : Char) : String :=
  match c with
  | '"' => "\\\""
  | '\\' => "\\\\"
  | '\n' => "\\n"
  | '\r' => "\\r"
  | '\t' => "\\t"
  | '\x08' => "\\b"
  | '\x0c' => "\\f"
  | c => if 32 ≤ c.toNat && c.toNat < 127 then c.toString else numberEscape c.toNat

def escapeCode : Text.Code → String
  | .char c => escapeChar c
  | c => numberEscape c.toNat

def textLiteral (s : String) : String :=
  "\"" ++ String.join ((Text.codes s).map escapeCode) ++ "\""

def floatLiteral (x : Double) : String :=
  if x.isNaN then "NaN"
  else if x.isFinite then x.text
  else if x.isNegative then "-Infinity"
  else "Infinity"

/-- How the parts of lists and objects are set apart. -/
structure Layout where
  /-- Blanks per level, or none for a single line. -/
  indent : Option Nat
  deriving DecidableEq, Repr

def Layout.line : Layout := ⟨none⟩

def Layout.indented (n : Nat) : Layout := ⟨some n⟩

/-- A new line at a level; nothing when all is on one line. -/
def Layout.newline (l : Layout) (level : Nat) : String :=
  match l.indent with
  | some n => "\n" ++ String.ofList (List.replicate (n * level) ' ')
  | none => ""

def Layout.separator (l : Layout) (level : Nat) : String :=
  match l.indent with
  | some _ => "," ++ l.newline level
  | none => ", "

/-- Parts between brackets; no parts take no room. -/
def Layout.enclose (l : Layout) (level : Nat) (opening closing : String) (parts : List String) :
    String :=
  if parts.isEmpty then opening ++ closing
  else
    opening ++ l.newline (level + 1) ++ (l.separator (level + 1)).intercalate parts
      ++ l.newline level ++ closing

mutual

def write (l : Layout) (level : Nat) : Json → String
  | .null => "null"
  | .bool b => if b then "true" else "false"
  | .int n => toString n
  | .float x => floatLiteral x
  | .text s => textLiteral s
  | .list items => l.enclose level "[" "]" (writeItems l (level + 1) items)
  | .object entries => l.enclose level "\x7b" "\x7d" (writeEntries l (level + 1) entries)

def writeItems (l : Layout) (level : Nat) : List Json → List String
  | [] => []
  | j :: js => write l level j :: writeItems l level js

def writeEntries (l : Layout) (level : Nat) : List (String × Json) → List String
  | [] => []
  | (k, j) :: es => (textLiteral k ++ ": " ++ write l level j) :: writeEntries l level es

end

/-- **The text of a value on one line.** -/
def oneLine (j : Json) : String := j.write .line 0

/-- **The text of a value over several lines**, each level two blanks further in. -/
def indented (j : Json) : String := j.write (.indented 2) 0

end Json

end TraitFactory
