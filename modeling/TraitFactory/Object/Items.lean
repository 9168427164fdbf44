import TraitFactory.Object.Comparison
import TraitFactory.Object.Fields
import TraitFactory.Text.Cutting

/-!
# Items

Reading and setting the parts of a value by key or position. A snapshot remembers the keys that
are read through it; asking for a key, for all values or for equality reads it too, while its
length and its keys alone read nothing.
-/

namespace TraitFactory

namespace Action

/-! ## Positions -/

/-- The place a position means in a sequence, counted from the end when negative. -/
def position? (length : Nat) (i : Int) : Option Nat :=
  let i := if i < 0 then i + length else i
  if 0 ≤ i && i < length then some i.toNat else none

/-- The positions that a sequence can have at all lie below this bound. -/
def positionBound : Int := 0x8000000000000000

/-- The place a key means in a sequence; `what` says what is out of range. -/
def placeOf (what : String) (length : Nat) (key : Value) : Action Nat := do
  match key.asInt? with
  | none => wrongType
  | some i =>
    if i < -positionBound || positionBound ≤ i then fail .beyondPositions
    else
      match position? length i with
      | some n => return n
      | none => fail (.badIndex (what ++ "index out of range"))

/-- The part at a position; `what` says what kind of sequence it is. -/
def partAt {α : Type} [Inhabited α] (what : String) (parts : List α) (key : Value) : Action α := do
  return parts.getD (← placeOf what parts.length key) default

/-! ## Reading -/

/-- The part of an object under a key. -/
def objectItem (key : Value) : Object → Action Value
  | .list items => partAt "list " items key
  | .tuple items => partAt "tuple " items key
  | .snapshot s => do found key (← snapshotItem? s key)
  | _ => wrongType

/-- The member of an enumeration under a name. -/
def memberNamed (member key : Value) : Action Value := do
  requireKey key
  found key ((siblings member).find? fun m => key.asText? = some (memberName m))

/-- **The part of a value under a key.** -/
def getItem (host : Host) (v key : Value) : Action Value := do
  let v := v.behind
  match v, v.asText? with
  | _, some s => partAt "string " (characters s) key
  | .context e, _ => do
    let name ← attributeName key
    read host (← evaluationOf e) name
  | .bytes bs, _ => return .int (← partAt "" bs key).toNat
  | .enumeration member, _ => memberNamed member key
  | _, none =>
    let w ← get
    match w.entries? v, w.heap.object? v with
    | some entries, _ => found key (← entryUnder entries key)
    | none, some x => objectItem key x
    | none, none => wrongType

/-- Calls a method of a value by its name. -/
def callNamed (host : Host) (v : Value) (name : String) (arguments : List Value) :
    Action Value := do
  host.call (← getAttr host v name) arguments

/-- A part of a context, or else the default. -/
def contextFind (host : Host) (e : EvaluationId) (key default : Value) : Action Value := do
  let name ← attributeName key
  let e ← evaluationOf e
  if (← declared? (← getEvaluation e) name).isSome then read host e name else return default

/-- A part of a dictionary or a snapshot, or else the default. -/
def tableFind (v key default : Value) : Action Value := do
  match (← get).entries? v, ← snapshot? v with
  | some entries, _ => return (← entryUnder entries key).getD default
  | none, some s => return (← snapshotItem? s key).getD default
  | none, none => wrongType

/-- Whether bytes hold others, or a single number. -/
def bytesContain (bs : List UInt8) (key : Value) : Action Bool := do
  match key, key.asInt? with
  | .bytes part, _ => return Text.occursIn part bs
  | _, some i =>
    if 0 ≤ i && i < 256 then return bs.any fun b => (b.toNat : Int) = i
    else fail (.badValue "byte must be in range(0, 256)")
  | _, none => wrongType

/-- Whether a value is among the elements of another, which are read up to it. -/
def elementsContain (v key : Value) : Action Bool := do
  anyOn (fun x => equalPart x key) (← walk v)

/-- Whether a value is a member of an enumeration; only members of some enumeration may be asked
for. -/
def enumerationContains (member key : Value) : Action Bool :=
  match key with
  | .symbol _ _ | .textSymbol _ _ | .keyword _ => return (siblings member).contains key
  | _ => wrongType

/-- **Whether a value has a key** or, for sequences, a part. On a context only declared names
count. -/
def contains (v key : Value) : Action Bool := do
  let v := v.behind
  match v, v.asText? with
  | _, some s =>
    match key.asText? with
    | some t => return Text.occursIn (Text.codes t) (Text.codes s)
    | none => wrongType
  | .context e, _ =>
    match key.name? with
    | some name => do
      return (← declared? (← getEvaluation (← evaluationOf e)) name).isSome
    | none => return false
  | .bytes bs, _ => bytesContain bs key
  | .tableView _ .values _, _ => elementsContain v key
  | .tableView _ _ _, _ => hasMember equal v key
  | .enumeration member, _ => enumerationContains member key
  | _, none =>
    let w ← get
    match w.entries? v, w.heap.object? v with
    | some entries, _ => return (← entryUnder entries key).isSome
    | none, some (.snapshot s) => return (← snapshotItem? s key).isSome
    | none, some (.set members) => setHas members key
    | none, some (.attributes s) => membersContain (s.names.map .text) key
    | _, _ => elementsContain v key

/-- **The length of a value.** -/
def length (v : Value) : Action Nat := do
  let v := v.behind
  match v, v.asText? with
  | _, some s => return Text.length s
  | .bytes bs, _ => return bs.length
  | .tableView _ _ _, _ => setSize v
  | .enumeration member, _ => return (siblings member).length
  | _, none =>
    let w ← get
    match w.entries? v, w.heap.object? v with
    | some entries, _ => return entries.length
    | none, some (.list items) | none, some (.tuple items) | none, some (.set items) =>
      return items.length
    | none, some (.attributes s) => return s.size
    | none, some (.snapshot s) => return (← snapshotTable s).length
    | _, _ => wrongType

/-! ## Whole tables -/

/-- The elements of a value, each of two parts, as lists of these. -/
def pairsOf (v : Value) : Action Value := do
  Parts.list (← (← walk v).mapM fun read => do
    let (k, x) ← bothParts (← read)
    Parts.list [k, x])

/-! ## Making dictionaries -/

/-- Adds an entry, whose key must be able to be one. -/
def addEntry (entries : List (Value × Value)) (k x : Value) : Action (List (Value × Value)) := do
  requireKey k
  return (← get).insertEntry k x entries

/-- A dictionary of the given entries, later ones replacing earlier ones of an equal key. -/
def newDict (entries : List (Value × Value)) : Action Value := do
  alloc (.dict (← entries.foldlM (fun es e => addEntry es e.1 e.2) []))

/-- An element that stands for an entry: a sequence of two parts. -/
def entryOf (index : Nat) (pair : Value) : Action (Value × Value) := do
  match ← elements pair with
  | [k, x] => return (k, x)
  | parts =>
    let found := s!"#{index} has length {parts.length}; 2 is required"
    fail (.badValue ("dictionary update sequence element " ++ found))

/-- Entries read one by one from a walk through pairs. -/
def entriesOfPairs (pairs : Walk) : Action (List (Value × Value)) :=
  pairs.zipIdx.foldlM (fun es read => do
    let (k, x) ← entryOf read.2 (← read.1)
    addEntry es k x) []

/-- Entries read from a value by the keys that it names, one after another. -/
def entriesByKeys (host : Host) (v keys : Value) : Action (List (Value × Value)) := do
  (← elements (← host.call keys [])).foldlM (fun es k => do addEntry es k (← getItem host v k)) []

/-- The method that names a value's keys, if it has one. -/
def keysMethod? (host : Host) (v : Value) : Action (Option Value) :=
  tryCatch (some <$> getAttr host v "keys") fun e =>
    if e.cause.lacksAttribute then return none else throw e

/-- The entries that a value has under the keys that it names; `none` where it names none. -/
def namedEntries? (host : Host) (v : Value) : Action (Option (List (Value × Value))) := do
  match (← get).entries? v with
  | some entries => return some entries
  | none =>
    match ← keysMethod? host v with
    | some keys => some <$> entriesByKeys host v keys
    | none => return none

/-- **A dictionary made from a value**: a copy of a table, or of what a value has under the keys
that it names, or from a sequence of entries. -/
def toDict (host : Host) (v : Value) : Action Value := do
  match ← namedEntries? host v with
  | some entries => newDict entries
  | none => newDict (← entriesOfPairs (← walk v))

/-- The entries of a value that is given in the place of keywords. A value that names no keys has
no entries at all, and a key that is missing is no entry. -/
def entriesToSpread (host : Host) (v : Value) : Action (List (Value × Value)) := do
  tryCatch (do
    match ← namedEntries? host v with
    | some entries => return entries
    | none => wrongType) fun e =>
    if e.cause.lacksAttribute || e.cause.lacksKey then wrongType else throw e

/-- Entries as keywords; keys that are no texts are refused. -/
def entriesAsKeywords (entries : List (Value × Value)) : Action (List (String × Value)) :=
  entries.mapM fun e => do
    match e.1.asText? with
    | some name => return (name, e.2)
    | none => wrongType

/-! ## Changing -/

/-- **Sets a part under a key.** -/
def setItem (v key x : Value) : Action Unit := do
  let w ← get
  match w.entries? v, v, w.heap.object? v with
  | some entries, _, _ => setEntries v (← addEntry entries key x)
  | none, .object o, some (.list items) =>
    let n ← placeOf "list assignment " items.length key
    modify fun w => w.setObject o (.list (items.set n x))
  | _, _, _ => wrongType

/-- Takes out what is under a key. -/
def deleteItem (v key : Value) : Action Unit := do
  let w ← get
  match w.entries? v, v, w.heap.object? v with
  | some entries, _, _ => do
    if (← entryUnder entries key).isNone then let _ ← missing key
    setEntries v (entries.filter fun e => !w.sameKey e.1 key)
  | none, .object o, some (.list items) =>
    let n ← placeOf "list assignment " items.length key
    modify fun w => w.setObject o (.list (items.eraseIdx n))
  | _, _, _ => wrongType

end Action

end TraitFactory
