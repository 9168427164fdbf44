import TraitFactory.Object.Elements
import TraitFactory.Object.Equality

/-!
# Keys

Looking up what is kept under a key. A key must be a value that cannot change, and a snapshot
remembers the keys that are found in it.
-/

namespace TraitFactory

namespace Action

/-- Fails unless a value can be a key. -/
def requireKey (key : Value) : Action Unit := do
  if !(← get).isKey key then wrongType

def missing (key : Value) : Action Value := do fail (.missingKey (← quoted key))

/-- **Reads a key through a snapshot**, which is noted when it is found. -/
def snapshotItem? (s : Snapshot) (key : Value) : Action (Option Value) := do
  requireKey key
  match (← get).entryValue? (← snapshotTable s) key with
  | some v =>
    noteRead s [key]
    return some v
  | none => return none

/-- The entry of a dictionary under a key, if it has one. -/
def entryUnder (entries : List (Value × Value)) (key : Value) : Action (Option Value) := do
  requireKey key
  return (← get).entryValue? entries key

/-- What was found under a key, which must be something. -/
def found (key : Value) : Option Value → Action Value
  | some x => return x
  | none => missing key

/-- Whether a value is among others, none of which is looked for if it can be no key. -/
def membersContain (members : List Value) (key : Value) : Action Bool := do
  requireKey key
  let w ← get
  return members.any fun x => w.sameKey x key

/-- Whether a value is a set. -/
def isSet (v : Value) : Action Bool := do
  match (← get).heap.object? v with
  | some (.set _) => return true
  | _ => return false

/-- Whether a set has a member. Another set can be looked for, but is never found. -/
def setHas (members : List Value) (x : Value) : Action Bool := do
  if ← isSet x then return false else membersContain members x

/-- The two parts of a value that must have just two. -/
def bothParts (v : Value) : Action (Value × Value) := do
  match ← (← walk v).take 3 |>.mapM id with
  | [k, x] => return (k, x)
  | parts =>
    if parts.length < 2 then
      fail (.badValue s!"not enough values to unpack (expected 2, got {parts.length})")
    else fail (.badValue "too many values to unpack (expected 2)")

end Action

end TraitFactory
