import TraitFactory.Text.Code
import TraitFactory.Text.Printable

/-!
# Quoted text

How texts and byte strings are shown inside other values and in messages: between single
quotes, or between double quotes when the text holds a single quote and no double one.
Backslashes, the chosen quote and everything unprintable are escaped.
-/

namespace TraitFactory.Text

/-- The last `n` hexadecimal digits of a number, in lower case. -/
def hexDigits : Nat → Nat → List Char
  | 0, _ => []
  | n + 1, k => hexDigits n (k / 16) ++ [Nat.digitChar (k % 16)]

def hex (width k : Nat) : String := String.ofList (hexDigits width k)

/-- Single quotes are preferred. -/
def quoteFor (cs : List Char) : Char :=
  if cs.contains '\'' && !cs.contains '"' then '"' else '\''

/-- The three escapes with a letter, shared by texts and byte strings. -/
def letterEscape? : Char → Option String
  | '\t' => some "\\t"
  | '\n' => some "\\n"
  | '\r' => some "\\r"
  | _ => none

/-- An unprintable character is written by its number, in as few of two, four or eight digits
as hold it. -/
def numberEscape (n : Nat) : String :=
  if n < 0x100 then "\\x" ++ hex 2 n
  else if n < 0x10000 then "\\u" ++ hex 4 n
  else "\\U" ++ hex 8 n

def escapeChar (quote c : Char) : String :=
  if c = quote || c = '\\' then String.ofList ['\\', c]
  else match letterEscape? c with
    | some e => e
    | none => if isPrintable c then c.toString else numberEscape c.toNat

/-- A half is never printable. -/
def escapeCode (quote : Char) : Code → String
  | .char c => escapeChar quote c
  | c => numberEscape c.toNat

/-- **A text between quotes.** -/
def quoted (s : String) : String :=
  let q := quoteFor s.toList
  q.toString ++ String.join ((codes s).map (escapeCode q)) ++ q.toString

/-- **A text as characters alone**: what is no character is written by its number. -/
def spelled (s : String) : List Char :=
  (codes s).flatMap fun
    | .char c => [c]
    | c => (numberEscape c.toNat).toList

/-- Characters are written as they are. -/
theorem spelled_ofChars (cs : List Char) : spelled (ofChars cs) = cs := by
  rw [spelled, ofChars, codes_ofCodes]
  induction cs with
  | nil => rfl
  | cons c cs ih => simp [ih]

def escapeByte (quote : Char) (b : UInt8) : String :=
  let c := Char.ofNat b.toNat
  if c = quote || c = '\\' then String.ofList ['\\', c]
  else match letterEscape? c with
    | some e => e
    | none => if 32 ≤ b.toNat && b.toNat < 127 then c.toString else "\\x" ++ hex 2 b.toNat

/-- **A byte string between quotes**, marked by a leading `b`. -/
def quotedBytes (bs : List UInt8) : String :=
  let q := quoteFor (bs.map fun b => Char.ofNat b.toNat)
  "b" ++ q.toString ++ String.join (bs.map (escapeByte q)) ++ q.toString

end TraitFactory.Text
