/-!
# Codes

UTF-16 writes a character of the higher planes by a pair of units, and a text that was put
together from units may hold half a pair on its own. A code is a character or such a half. A text
is kept as a string in which a half is written as a mark and a character that stands for it, and
the mark itself is written twice. Main statement: the codes of a text are those that it was
written from, so no two lists of codes are one text.
-/

namespace TraitFactory.Text

/-- **A code point**: a character, or half of a pair by its place among the halves. -/
inductive Code where
  | char (c : Char)
  | half (place : Fin 2048)
  deriving DecidableEq, Repr

instance : Inhabited Code := ⟨.char ' '⟩

instance : Coe Char Code := ⟨.char⟩

/-- The unit that the first half has. -/
def firstHalf : Nat := 0xD800

/-- Whether a unit is the first of a pair. -/
def isHighHalf (n : Nat) : Bool := 0xD800 ≤ n && n < 0xDC00

/-- Whether a unit is the second of a pair. -/
def isLowHalf (n : Nat) : Bool := 0xDC00 ≤ n && n < 0xE000

/-- The characters that stand for halves after a mark begin here. -/
def firstStandIn : Nat := 0xE000

/-- What stands before the characters that stand for halves, and before itself. -/
def mark : Char := Char.ofNat 0x10FFFF

namespace Code

def toNat : Code → Nat
  | .char c => c.toNat
  | .half place => firstHalf + place

def ofNat (n : Nat) : Code :=
  if h : firstHalf ≤ n ∧ n < firstHalf + 2048 then .half ⟨n - firstHalf, by omega⟩
  else .char (Char.ofNat n)

/-- The character of a pair. -/
def ofPair (high low : Nat) : Code :=
  .char (Char.ofNat (0x10000 + (high - 0xD800) * 0x400 + (low - 0xDC00)))

/-- Whether a code is a character with a property. -/
def is (p : Char → Bool) : Code → Bool
  | .char c => p c
  | .half _ => false

/-- The character that a code is, if it is one. -/
def char? : Code → Option Char
  | .char c => some c
  | .half _ => none

/-- The form of a character in some mapping; a half has no other form. -/
def mapped (f : Char → List Char) : Code → List Code
  | .char c => (f c).map .char
  | .half place => [.half place]

def standIn (place : Fin 2048) : Char := Char.ofNat (firstStandIn + place)

/-- The half that a character stands for after a mark, or else the character itself. -/
def afterMark (c : Char) : Code :=
  if h : firstStandIn ≤ c.toNat ∧ c.toNat < firstStandIn + 2048 then
    .half ⟨c.toNat - firstStandIn, by omega⟩
  else .char c

/-- How a code is written in a string. -/
def written : Code → List Char
  | .half place => [mark, standIn place]
  | .char c => if c = mark then [mark, mark] else [c]

end Code

/-- The codes that are written in a string. -/
def codesFrom : List Char → List Code
  | [] => []
  | [c] => [.char c]
  | c :: d :: cs =>
    if c = mark then Code.afterMark d :: codesFrom cs else .char c :: codesFrom (d :: cs)

/-- **The codes of a text.** -/
def codes (s : String) : List Code := codesFrom s.toList

/-- **The text of some codes.** -/
def ofCodes (cs : List Code) : String := String.ofList (cs.flatMap Code.written)

def ofCode (c : Code) : String := ofCodes [c]

/-- The text of some characters. -/
def ofChars (cs : List Char) : String := ofCodes (cs.map .char)

/-- The text that a string from outside is. -/
def ofString (s : String) : String := ofChars s.toList

/-- How many codes a text has. -/
def length (s : String) : Nat := (codes s).length

/-- The characters of a text, if it holds no halves. -/
def chars? (s : String) : Option (List Char) := (codes s).mapM Code.char?

/-- Whether one list of codes comes before another: the first that differ decide. -/
def codesBefore : List Code → List Code → Bool
  | _, [] => false
  | [], _ :: _ => true
  | c :: cs, d :: ds => if c = d then codesBefore cs ds else c.toNat < d.toNat

/-- **The order of texts**, by their codes. -/
def before (s t : String) : Bool := codesBefore (codes s) (codes t)

/-! ## UTF-8 -/

/-- The bytes of a text. Halves have none. -/
def toBytes? (s : String) : Option (List UInt8) :=
  (chars? s).map fun cs => (String.ofList cs).toUTF8.toList

/-- The text of some bytes. -/
def ofBytes? (bs : List UInt8) : Option String := (String.fromUTF8? ⟨bs.toArray⟩).map ofString

/-! ## Laws -/

namespace Code

theorem toNat_standIn (place : Fin 2048) : (standIn place).toNat = firstStandIn + place := by
  have h : (firstStandIn + place).isValidChar :=
    Or.inr (by have := place.isLt; simp only [firstStandIn]; omega)
  rw [standIn, Char.ofNat, dif_pos h]
  rfl

theorem afterMark_standIn (place : Fin 2048) : afterMark (standIn place) = .half place := by
  have h : firstStandIn ≤ (standIn place).toNat ∧ (standIn place).toNat < firstStandIn + 2048 := by
    rw [toNat_standIn]
    omega
  rw [afterMark, dif_pos h]
  simp [toNat_standIn]

theorem afterMark_mark : afterMark mark = .char mark := by decide +kernel

end Code

theorem codesFrom_cons {c : Char} (h : c ≠ mark) (cs : List Char) :
    codesFrom (c :: cs) = .char c :: codesFrom cs := by
  cases cs with
  | nil => rfl
  | cons d cs => rw [codesFrom, if_neg h]

theorem codesFrom_mark (d : Char) (cs : List Char) :
    codesFrom (mark :: d :: cs) = Code.afterMark d :: codesFrom cs := by
  rw [codesFrom, if_pos rfl]

theorem codesFrom_written_append (c : Code) (cs : List Char) :
    codesFrom (c.written ++ cs) = c :: codesFrom cs := by
  cases c with
  | half place =>
    exact (codesFrom_mark _ _).trans (congrArg (· :: _) (Code.afterMark_standIn place))
  | char c =>
    by_cases h : c = mark
    · simp [Code.written, h, codesFrom_mark, Code.afterMark_mark]
    · simp [Code.written, h, codesFrom_cons h]

/-- **A text has the codes that it was written from.** -/
theorem codes_ofCodes (cs : List Code) : codes (ofCodes cs) = cs := by
  rw [codes, ofCodes, String.toList_ofList]
  induction cs with
  | nil => rfl
  | cons c cs ih => rw [List.flatMap_cons, codesFrom_written_append, ih]

/-- Texts of different codes differ. -/
theorem ofCodes_inj {cs ds : List Code} (h : ofCodes cs = ofCodes ds) : cs = ds := by
  rw [← codes_ofCodes cs, h, codes_ofCodes]

/-- Where texts are put together, so are their codes. -/
theorem ofCodes_append (cs ds : List Code) : ofCodes (cs ++ ds) = ofCodes cs ++ ofCodes ds := by
  simp [ofCodes, String.ofList_append]

end TraitFactory.Text
