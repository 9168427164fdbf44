/-!
# Cutting

Looking for a part of a sequence, and cutting a sequence at its parts, at its blanks and at its
line ends. The sequences are those of texts and those of byte strings; an alphabet says what
either takes for a blank and for the end of a line.
-/

namespace TraitFactory.Text

/-- **What the units of a sequence stand for.** -/
structure Alphabet (α : Type) where
  /-- The unit of a character that both texts and byte strings have. -/
  unit : Char → α
  isBlank : α → Bool
  endsLine : α → Bool

section

variable {α : Type} [DecidableEq α]

/-! ## Parts -/

/-- Whether one sequence occurs in another. -/
def occursIn (part : List α) : List α → Bool
  | [] => part.isEmpty
  | x :: xs => part.isPrefixOf (x :: xs) || occursIn part xs

/-- Where a part first occurs. -/
def firstAt? (part : List α) : List α → Option Nat
  | [] => if part.isEmpty then some 0 else none
  | c :: cs => if part.isPrefixOf (c :: cs) then some 0 else (firstAt? part cs).map (· + 1)

/-- Where a part last occurs. -/
def lastAt? (part cs : List α) : Option Nat :=
  (firstAt? part.reverse cs.reverse).map fun i => cs.length - part.length - i

/-- **Cuts a sequence at a part**, which is not empty, at most so many times. -/
def cut (part : List α) : Nat → List α → List (List α)
  | 0, cs => [cs]
  | limit + 1, cs =>
    match firstAt? part cs with
    | none => [cs]
    | some i => cs.take i :: cut part limit (cs.drop (i + part.length))

/-- How often a sequence can be cut at all. -/
def cutLimit (cs : List α) : Nat := cs.length + 1

/-- Cuts a sequence from its end on. -/
def cutBack (part : List α) (limit : Nat) (cs : List α) : List (List α) :=
  ((cut part.reverse limit cs.reverse).map List.reverse).reverse

/-- How often a part occurs, occurrences that overlap counting once. -/
def occurrences (part cs : List α) : Nat :=
  if part.isEmpty then cs.length + 1 else (cut part (cutLimit cs) cs).length - 1

/-- Puts a sequence before every unit and at the end, at most so many times. -/
def interleaved (new : List α) : Nat → List α → List α
  | 0, cs => cs
  | _ + 1, [] => new
  | limit + 1, c :: cs => new ++ c :: interleaved new limit cs

/-- Replaces a part, at most so many times. -/
def replaced (old new : List α) (limit : Nat) (cs : List α) : List α :=
  if old.isEmpty then interleaved new limit cs else new.intercalate (cut old limit cs)

/-! ## Blanks and lines -/

/-- Cuts a sequence at its blanks, at most so many times. -/
def cutBlanks (isBlank : α → Bool) : Nat → List α → List (List α)
  | limit, cs =>
    match limit, cs.dropWhile isBlank with
    | _, [] => []
    | 0, rest => [rest]
    | limit + 1, rest =>
      rest.takeWhile (!isBlank ·) :: cutBlanks isBlank limit (rest.dropWhile (!isBlank ·))

def cutBlanksBack (isBlank : α → Bool) (limit : Nat) (cs : List α) : List (List α) :=
  ((cutBlanks isBlank limit cs.reverse).map List.reverse).reverse

/-- The lines of a sequence with their ends; `line` is what has been read of one. A carriage return
and the line feed after it end a line together. -/
def linesFrom (a : Alphabet α) (line : List α) : List α → List (List α × List α)
  | [] => if line.isEmpty then [] else [(line, [])]
  | [c] => if a.endsLine c then [(line, [c])] else [(line ++ [c], [])]
  | c :: d :: cs =>
    if c = a.unit '\r' && d = a.unit '\n' then (line, [c, d]) :: linesFrom a [] cs
    else if a.endsLine c then (line, [c]) :: linesFrom a [] (d :: cs)
    else linesFrom a (line ++ [c]) (d :: cs)

/-- A sequence without some units at its ends. -/
def trimmed (left right : Bool) (drop : α → Bool) (cs : List α) : List α :=
  let cs := if left then cs.dropWhile drop else cs
  if right then (cs.reverse.dropWhile drop).reverse else cs

/-! ## Filling up -/

/-- Zeros before a number, after its sign. -/
def zeroFilled (a : Alphabet α) (width : Nat) (cs : List α) : List α :=
  let zeros := List.replicate (width - cs.length) (a.unit '0')
  match cs with
  | c :: rest =>
    if c = a.unit '+' || c = a.unit '-' then c :: zeros ++ rest else zeros ++ cs
  | [] => zeros

def padRight (width : Nat) (fill : α) (cs : List α) : List α :=
  cs ++ List.replicate (width - cs.length) fill

def padLeft (width : Nat) (fill : α) (cs : List α) : List α :=
  List.replicate (width - cs.length) fill ++ cs

/-- A sequence in the middle of a width; what cannot be halved goes to the left if the width is
odd. -/
def centered (width : Nat) (fill : α) (cs : List α) : List α :=
  let room := width - cs.length
  let left := room / 2 + (if room % 2 = 1 && width % 2 = 1 then 1 else 0)
  List.replicate left fill ++ cs ++ List.replicate (room - left) fill

/-- A sequence whose tabs are filled up with blanks to the next of some columns. -/
def tabsExpanded (a : Alphabet α) (step column : Nat) : List α → List α
  | [] => []
  | c :: cs =>
    if c = a.unit '\t' then
      let width := if step = 0 then 0 else step - column % step
      List.replicate width (a.unit ' ') ++ tabsExpanded a step (column + width) cs
    else
      let ends := c = a.unit '\n' || c = a.unit '\r'
      c :: tabsExpanded a step (if ends then 0 else column + 1) cs

end

end TraitFactory.Text
