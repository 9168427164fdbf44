import TraitFactory.Object.Equality
import TraitFactory.Object.Parts

/-!
# Elements of a value

What a value yields when it is gone through: a text its characters, a byte string its numbers, a
dictionary its keys, an attribute value or a plan its named parts. A walk reads the elements one by
one, for reading the values of a snapshot marks them, and an iteration is left where a walk stops.
-/

namespace TraitFactory

namespace World

/-- Whether an object counts as true: what is not empty, and all that is no container. -/
def isTrueObject (w : World) : Object → Bool
  | .list items | .tuple items | .set items => !items.isEmpty
  | .dict entries => !entries.isEmpty
  | .snapshot s => (w.entries? s.table).all fun es => !es.isEmpty
  | .attributes s => s.size ≠ 0
  | _ => true

/-- **Whether a value counts as true**: numbers other than zero, what is not empty, and all that
is no container. -/
def isTrue (w : World) (v : Value) : Bool :=
  let v := v.behind
  match v, v.asText? with
  | _, some s => !s.isEmpty
  | .null, _ => false
  | .bool b, _ => b
  | .int n, _ => n ≠ 0
  | .float _ x, _ => !x.isZero
  | .bytes bs, _ => !bs.isEmpty
  | .object o, _ => ((w.heap.get? o).map w.isTrueObject).getD true
  | .fields _, _ => (w.entries? v).all fun es => !es.isEmpty
  | .tableView _ _ table, _ =>
    match w.heap.object? table, w.entries? table with
    | some x, _ => w.isTrueObject x
    | none, some es => !es.isEmpty
    | none, none => true
  | _, none => true

end World

def characters (s : String) : List Value := (Text.codes s).map fun c => .text (Text.ofCode c)

namespace Action

/-- Pairs of a name and the part under it. -/
def pairs (parts : Parts) : Action (List Value) :=
  parts.mapM fun part => do alloc (.tuple [.text part.1, ← part.2])

/-! ## Snapshots -/

/-- The snapshot a value is, if it is one. -/
def snapshot? (v : Value) : Action (Option Snapshot) := do
  match (← get).heap.object? v with
  | some (.snapshot s) => return some s
  | _ => return none

/-- The entries of a snapshot's table, without reading them. -/
def snapshotTable (s : Snapshot) : Action (List (Value × Value)) := do
  match (← get).entries? s.table with
  | some entries => return entries
  | none => wrongType

/-- Notes that keys have been read. -/
def noteRead (s : Snapshot) (keys : List Value) : Action Unit := do
  match s.read, (← get).heap.object? s.read with
  | .object o, some (.set members) =>
    modify fun w =>
      w.setObject o (.set (members ++ keys.filter fun k => !members.any (w.sameKey · k)))
  | _, _ => noAttribute

/-- All entries of a snapshot, every one of them read. -/
def snapshotEntries (s : Snapshot) : Action (List (Value × Value)) := do
  let entries ← snapshotTable s
  noteRead s (entries.map (·.1))
  return entries

/-! ## Walks -/

/-- **What reads the elements of a value**, one after another. -/
abbrev Walk := List (Action Value)

def walkOf (vs : List Value) : Walk := vs.map pure

/-- What an aspect of a table shows of an entry. -/
def aspectElement (aspect : TableAspect) (entry : Value × Value) : Action Value :=
  match aspect with
  | .keys => return entry.1
  | .values => return entry.2
  | .items => alloc (.tuple [entry.1, entry.2])

/-- What a view of a table yields. Values of a snapshot are read. -/
def walkTable (aspect : TableAspect) (table : Value) : Action Walk := do
  match ← snapshot? table, aspect, (← get).entries? table with
  | some s, .keys, _ => return (← snapshotTable s).map (aspectElement .keys)
  | some s, aspect, _ =>
    return (← snapshotTable s).map fun e => do
      noteRead s [e.1]
      aspectElement aspect e
  | none, aspect, some entries => return entries.map (aspectElement aspect)
  | none, _, none => wrongType

/-- The members of the enumeration that a value is a member of. -/
def siblings : Value → List Value
  | .keyword k => k.siblings.map .keyword
  | member => [member]

/-- Whether the size of something must stay what it is while it is gone through, and what is said
where it does not. -/
def sizeFixedIn (w : World) (v : Value) : Option String :=
  match v, w.heap.object? v with
  | _, some (.set _) => some "Set changed size during iteration"
  | .fields _, _ | .tableView _ _ _, _ | _, some (.dict _) | _, some (.snapshot _) =>
    some "dictionary changed size during iteration"
  | _, _ => none

/-- What is left of an iteration, given what its source yields as a whole. Each element that is
read is taken, and an iteration is finished when the last one is. -/
def walkRest (o : ObjectId) (i : Iteration) (all : Walk) : Walk :=
  let left := i.size - i.taken
  let rest :=
    if !i.backwards then all.drop i.taken
    else if left ≤ all.length then (all.take left).reverse
    else []
  rest.zipIdx.map fun read => do
    let taken := i.taken + read.2 + 1
    let finished := read.2 + 1 = rest.length
    modify fun w => w.setObject o (.iteration { i with taken, finished })
    read.1

/-- The walk through an object. -/
def walkObject (owner : Value) : Object → Action Walk
  | .list items | .tuple items => return walkOf items
  | .set members => return walkOf (Value.inSetOrder members)
  | .dict entries => return walkOf (entries.map (·.1))
  | .snapshot s => do return walkOf ((← snapshotTable s).map (·.1))
  | .attributes s => return walkOf (s.declarations.map fun d => .object d.object)
  | x =>
    match Parts.ofObject? owner x with
    | some parts => return parts.map fun part => do alloc (.tuple [.text part.1, ← part.2])
    | none => wrongType

/-- The walk through a value that is no iteration. A context answers to positions as if they were
names, and no position is a name. -/
def walkPlain (v : Value) : Action Walk := do
  match v, v.asText? with
  | _, some s => return walkOf (characters s)
  | .bytes bs, _ => return walkOf (bs.map fun b => .int b.toNat)
  | .context _, _ => fail (.notAnAttributeName "0")
  | .plan p, _ => return walkOf (← pairs (Parts.ofPlan p (← getStored p)))
  | .object o, _ =>
    match (← get).heap.get? o with
    | some x => walkObject v x
    | none => wrongType
  | .fields _, _ => walkTable .keys v
  | .tableView _ aspect table, _ => walkTable aspect table
  | .enumeration member, _ => return walkOf (siblings member)
  | _, none => wrongType

/-- **The walk through a value.** -/
def walk (v : Value) : Action Walk := do
  let v := v.behind
  match v, (← get).heap.object? v with
  | .object o, some (.iteration i) =>
    if i.finished then return []
    else
      let all ← walkPlain i.source
      match sizeFixedIn (← get) i.source with
      | some message => if all.length ≠ i.size then fail (.runtime message)
      | none => pure ()
      let rest := walkRest o i all
      if rest.isEmpty then modify fun w => w.setObject o (.iteration { i with finished := true })
      return rest
  | v, _ => walkPlain v

/-- **The elements of a value**, in order. -/
def elements (v : Value) : Action (List Value) := do (← walk v).mapM id

/-- Whether an element of a walk has a property; those after it are not read. -/
def anyOn (has : Value → Action Bool) : Walk → Action Bool
  | [] => return false
  | read :: rest => do if ← has (← read) then return true else anyOn has rest

/-- Whether all elements of a walk have a property; those after one that has not are not read. -/
def allOn (has : Value → Action Bool) : Walk → Action Bool
  | [] => return true
  | read :: rest => do if ← has (← read) then allOn has rest else return false

/-- The elements of an argument that may be left out. -/
def elementsOf (v : Option Value) : Action (List Value) :=
  match v with
  | some v => elements v
  | none => return []

/-- The entries of a dictionary that may be left out. -/
def entriesOf (v : Option Value) : Action (List (Value × Value)) := do
  match v with
  | none => return []
  | some v =>
    match (← get).entries? v with
    | some entries => return entries
    | none => wrongType

/-- The entries of a dictionary whose keys are all texts, as keyword arguments are. -/
def keywordsOf (v : Option Value) : Action (List (Value × Value)) := do
  let entries ← entriesOf v
  if entries.all fun e => e.1.asText?.isSome then return entries else wrongType

end Action

end TraitFactory
