import TraitFactory.Object.Arguments
import TraitFactory.Object.Elements
import TraitFactory.Text.Cutting

/-!
# Methods of texts and byte strings alike

What texts and byte strings do in the same way when a method of theirs is called: they are looked
into, cut, filled up and put together. Neither ever changes, so each method gives a new value.
-/

namespace TraitFactory

/-- **A kind of sequence of letters**: what its units stand for, how one is read from a value, and
the value that one is. -/
structure Lettering (α : Type) extends Text.Alphabet α where
  read? : Value → Option (List α)
  /-- A part to look for, which may also be given in another way. -/
  part : Value → Action (List α)
  write : List α → Value
  /-- What is said where a part that must be there is not. -/
  notFound : String

namespace Lettering

open Action Text

variable {α : Type} [DecidableEq α] (k : Lettering α)

def read (v : Value) : Action (List α) :=
  match k.read? v with
  | some cs => return cs
  | none => wrongType

def list (parts : List (List α)) : Action Value := Parts.list (parts.map k.write)

/-! ## Looking for parts -/

/-- Looks for a part within bounds. -/
def search (find? : List α → List α → Option Nat) (cs : List α) (part : Value)
    (bounds : List Value) : Action (Option Nat) := do
  let range ← rangeOf cs bounds
  let part ← k.part part
  match range with
  | some (start, range) => return (find? part range).map (· + start)
  | none => return none

/-- A place that was looked for, or a number below zero. -/
def placeOrNone (found : Option Nat) : Value := .int ((found.map Int.ofNat).getD (-1))

/-- A place that was found, or a failure. -/
def placeFound (found : Option Nat) : Action Value :=
  match found with
  | some n => return .int n
  | none => fail (.badValue k.notFound)

def count (cs : List α) (part : Value) (bounds : List Value) : Action Value := do
  let range ← rangeOf cs bounds
  let part ← k.part part
  match range with
  | some (_, range) => return .int (occurrences part range)
  | none => return .int 0

/-- Whether an end of a sequence is one of some others. -/
def hasEnd (isEnd : List α → List α → Bool) (cs : List α) (ends : Value)
    (bounds : List Value) : Action Value := do
  let ends ← match (← get).tuple? ends with
    | some ends => ends.mapM k.read
    | none => do pure [← k.read ends]
  match ← rangeOf cs bounds with
  | some (_, range) => return .bool (ends.any fun e => isEnd e range)
  | none => return .bool false

/-! ## Cutting -/

/-- A sequence without blanks, or without the given units, at its ends. -/
def strip (left right : Bool) (cs : List α) (dropped : Option Value) : Action Value := do
  let drop ← match dropped.bind Value.hook? with
    | none => pure k.isBlank
    | some v => do
      let given ← k.read v
      pure fun c => given.contains c
  return k.write (trimmed left right drop cs)

/-- A part to cut at, which must not be empty. -/
def separator (v : Value) : Action (List α) := do
  let part ← k.read v
  if part.isEmpty then fail (.badValue "empty separator") else return part

/-- Cuts a sequence at a separator or at its blanks. -/
def split (back : Bool) (cs : List α) (separator limit : Option Value) : Action Value := do
  let limit ← limitOf (cutLimit cs) limit
  match separator.bind Value.hook? with
  | none =>
    k.list (if back then cutBlanksBack k.isBlank limit cs else cutBlanks k.isBlank limit cs)
  | some v => do
    let part ← k.separator v
    k.list (if back then cutBack part limit cs else cut part limit cs)

/-- A sequence before a separator, the separator, and the sequence after it. -/
def partition (back : Bool) (cs : List α) (separator : Value) : Action Value := do
  let part ← k.separator separator
  let parts := match back, (if back then lastAt? part cs else firstAt? part cs) with
    | _, some i => [cs.take i, part, cs.drop (i + part.length)]
    | false, none => [cs, [], []]
    | true, none => [[], [], cs]
  Parts.tuple (parts.map k.write)

/-- The lines of a sequence, with their ends if a number other than zero is given. -/
def lines (cs : List α) (keep : Option Value) : Action Value := do
  let keeps ← match keep with
    | none => pure false
    | some v => do pure ((← fitting shortWord v) ≠ 0)
  k.list ((linesFrom k.toAlphabet [] cs).map fun l => if keeps then l.1 ++ l.2 else l.1)

def removePrefix (cs : List α) (part : Value) : Action Value := do
  let part ← k.read part
  return k.write (if part.isPrefixOf cs then cs.drop part.length else cs)

def removeSuffix (cs : List α) (part : Value) : Action Value := do
  let part ← k.read part
  return k.write (if part.isSuffixOf cs then cs.take (cs.length - part.length) else cs)

/-! ## Filling up and putting together -/

/-- What a sequence is filled up with: one unit. -/
def fill : Option Value → Action α
  | none => return k.unit ' '
  | some v => do
    match ← k.read v with
    | [c] => return c
    | _ => wrongType

/-- A sequence filled up to a width. -/
def filledUp (pad : Nat → α → List α → List α) (cs : List α) (width : Value)
    (fill : Option Value) : Action Value := do
  let width ← widthOf width
  let fill ← k.fill fill
  roomFor width
  return k.write (pad width fill cs)

def zeroFill (cs : List α) (width : Value) : Action Value := do
  let width ← widthOf width
  roomFor width
  return k.write (zeroFilled k.toAlphabet width cs)

def expandTabs (cs : List α) (step : Option Value) : Action Value := do
  let step ← fitting shortWord (step.getD (.int 8))
  return k.write (tabsExpanded k.toAlphabet step.toNat 0 cs)

def replace (cs : List α) (old new : Value) (limit : Option Value) : Action Value := do
  let old ← k.read old
  let new ← k.read new
  return k.write (replaced old new (← limitOf (cutLimit cs) limit) cs)

def join (separator : List α) (parts : Value) : Action Value := do
  return k.write (separator.intercalate (← (← elements parts).mapM k.read))

/-- A sequence repeated so many times. -/
def repeated (cs : List α) (times : Value) : Action Value := do
  let n := (← timesOf times).toNat
  roomFor (n * cs.length)
  return k.write (if cs.isEmpty then [] else (List.replicate n cs).flatten)

/-- **The methods of a sequence of letters**; `none` for all others. -/
def method? (cs : List α) (name : String) (arguments : List Value) : Option (Action Value) :=
  match name, arguments with
  | "strip", rest => some (k.strip true true cs rest.head?)
  | "lstrip", rest => some (k.strip true false cs rest.head?)
  | "rstrip", rest => some (k.strip false true cs rest.head?)
  | "splitlines", rest => some (k.lines cs rest.head?)
  | "expandtabs", rest => some (k.expandTabs cs rest.head?)
  | "join", [parts] => some (k.join cs parts)
  | "partition", [separator] => some (k.partition false cs separator)
  | "rpartition", [separator] => some (k.partition true cs separator)
  | "zfill", [width] => some (k.zeroFill cs width)
  | "removeprefix", [part] => some (k.removePrefix cs part)
  | "removesuffix", [part] => some (k.removeSuffix cs part)
  | "startswith", part :: bounds => some (k.hasEnd (·.isPrefixOf ·) cs part bounds)
  | "endswith", part :: bounds => some (k.hasEnd (·.isSuffixOf ·) cs part bounds)
  | "find", part :: bounds => some do return placeOrNone (← k.search firstAt? cs part bounds)
  | "rfind", part :: bounds => some do return placeOrNone (← k.search lastAt? cs part bounds)
  | "index", part :: bounds => some do k.placeFound (← k.search firstAt? cs part bounds)
  | "rindex", part :: bounds => some do k.placeFound (← k.search lastAt? cs part bounds)
  | "count", part :: bounds => some (k.count cs part bounds)
  | "ljust", width :: rest => some (k.filledUp padRight cs width rest.head?)
  | "rjust", width :: rest => some (k.filledUp padLeft cs width rest.head?)
  | "center", width :: rest => some (k.filledUp centered cs width rest.head?)
  | "split", rest => some (k.split false cs rest[0]? rest[1]?)
  | "rsplit", rest => some (k.split true cs rest[0]? rest[1]?)
  | "replace", old :: new :: rest => some (k.replace cs old new rest.head?)
  | "__mul__", [times] | "__rmul__", [times] => some (k.repeated cs times)
  | _, _ => none

end Lettering

end TraitFactory
