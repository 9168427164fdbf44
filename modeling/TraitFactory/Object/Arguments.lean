import TraitFactory.World

/-!
# Arguments

Numbers as methods take them. A number may have to fit a machine word; a bound of a range may be
any number, and is brought within the range.
-/

namespace TraitFactory

namespace Action

/-- A whole number. -/
def wholeOf (v : Value) : Action Int :=
  match v.asInt? with
  | some n => return n
  | none => wrongType

/-- A machine word that numbers must fit: how it is named, and its bits besides the sign. -/
structure MachineWord where
  name : String
  bits : Nat

def MachineWord.holds (m : MachineWord) (n : Int) : Bool :=
  -(Number.pow2 m.bits : Int) ≤ n && n < Number.pow2 m.bits

def sizeWord : MachineWord := ⟨"C ssize_t", 63⟩

def shortWord : MachineWord := ⟨"C int", 31⟩

/-- A whole number that must fit a machine word. -/
def fitting (m : MachineWord) (v : Value) : Action Int := do
  let n ← wholeOf v
  if m.holds n then return n else fail (.tooLargeFor m.name)

/-- A size, which must fit the word for sizes. -/
def sizeOf (v : Value) : Action Int := fitting sizeWord v

/-- How often a sequence is repeated. -/
def timesOf (v : Value) : Action Int := do
  let n ← wholeOf v
  if sizeWord.holds n then return n
  else fail (.overflow "cannot fit 'int' into an index-sized integer")

/-- How often something is done; a number below zero sets no limit. -/
def limitOf (unlimited : Nat) : Option Value → Action Nat
  | none => return unlimited
  | some v => do
    let n ← sizeOf v
    return if n < 0 then unlimited else n.toNat

/-- The most room that anything is given. -/
def roomLimit : Nat := Number.pow2 30

/-- A number of units that there must be room for. -/
def roomFor (n : Nat) : Action Unit := do
  if roomLimit < n then fail .outOfMemory

/-- A width to fill up to. -/
def widthOf (v : Value) : Action Nat := do return (← sizeOf v).toNat

/-- A bound of a range in a sequence, counted from the end when negative. -/
def boundOf (length usual : Nat) : Option Value → Action Nat
  | none => return usual
  | some v => do
    let i ← wholeOf v
    return min (if i < 0 then i + length else i).toNat length

/-- A bound that may also be given as nothing. -/
def givenBound (v : Option Value) : Option Value := v.bind Value.hook?

/-- The part of a sequence between two bounds, and where it starts; `none` if that is past its
end. -/
def rangeOf {α : Type} (xs : List α) (bounds : List Value) : Action (Option (Nat × List α)) := do
  let first := givenBound bounds[0]?
  let start ← boundOf xs.length 0 first
  let stop ← boundOf xs.length xs.length (givenBound bounds[1]?)
  let past := (first.bind (·.asInt?)).any fun i => (xs.length : Int) < i
  return if past || stop < start then none else some (start, (xs.take stop).drop start)

end Action

end TraitFactory
