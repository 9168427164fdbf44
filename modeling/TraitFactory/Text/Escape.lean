/-!
# Terminal escapes

Sequences by which a text sets colours and moves the cursor of a terminal: an escape character,
a bracket, numbers, and a letter. They are left out of what is written elsewhere.
-/

namespace TraitFactory.Text

def escapeCharacter : Char := '\x1b'

/-- What may stand between the bracket and the letter. -/
def isEscapeParameter (c : Char) : Bool := c.isDigit || c = ';' || c = '?'

/-- What follows an escape sequence whose escape character was just read, if it is one. -/
def afterEscape? (cs : List Char) : Option (List Char) :=
  match cs with
  | '[' :: cs =>
    match cs.dropWhile isEscapeParameter with
    | c :: rest => if c.isAlpha then some rest else none
    | [] => none
  | _ => none

/-- Leaves escapes out. Each step takes a character, so `fuel` is the text's length. -/
def withoutEscapesFrom : Nat → List Char → List Char
  | 0, cs => cs
  | _, [] => []
  | fuel + 1, c :: cs =>
    match if c = escapeCharacter then afterEscape? cs else none with
    | some rest => withoutEscapesFrom fuel rest
    | none => c :: withoutEscapesFrom fuel cs

/-- **A text without its terminal escapes.** -/
def withoutEscapes (s : String) : String :=
  String.ofList (withoutEscapesFrom s.length s.toList)

/-- A text without escape characters stays as it is. -/
theorem withoutEscapesFrom_of_not_mem {fuel : Nat} {cs : List Char} (h : escapeCharacter ∉ cs) :
    withoutEscapesFrom fuel cs = cs := by
  induction cs generalizing fuel with
  | nil => cases fuel <;> rfl
  | cons c cs ih =>
    cases fuel with
    | zero => rfl
    | succ fuel =>
      have hc : c ≠ escapeCharacter := fun hc => h (by simp [hc])
      simp [withoutEscapesFrom, hc, ih (fun hmem => h (by simp [hmem]))]

end TraitFactory.Text
