import TraitFactory.Number.Order
import TraitFactory.Object.Keys

/-!
# Comparison of values

Which values are equal and which comes before another, where comparing them may read a snapshot.
Each kind of value knows which other kinds it compares with; of two values the first is asked
first, and where neither knows the other they are equal only if they are one and the same, and have
no order.
-/

namespace TraitFactory

/-- **Kinds of values**, as far as they are compared by what they hold. -/
inductive ValueKind where
  | whole
  | real
  | text
  | bytes
  | list
  | tuple
  | dict
  | set
  /-- The keys or the entries of a dictionary, which are a set. -/
  | shown
  /-- The keys or the entries of a snapshot, which are a set as well. -/
  | snapshotShown
  | snapshot
  | openRecord
  /-- Something with parts that may not change. -/
  | frozen
  | settings
  | method
  deriving DecidableEq, Repr

namespace ValueKind

/-- The kinds that a kind compares with. -/
def partners : ValueKind → List ValueKind
  | .real => [.real, .whole]
  | .shown => [.shown, .set]
  | .snapshotShown => [.snapshotShown, .shown, .set]
  | .snapshot => [.snapshot, .dict]
  | k => [k]

/-- Whether values of a kind have an order. -/
def isOrdered : ValueKind → Bool
  | .whole | .real | .text | .bytes | .list | .tuple | .set | .shown | .snapshotShown => true
  | _ => false

end ValueKind

namespace World

def objectKind? : Object → Option ValueKind
  | .list _ => some .list
  | .tuple _ => some .tuple
  | .dict _ => some .dict
  | .set _ => some .set
  | .snapshot _ => some .snapshot
  | .record m _ => if m.openFields then some .openRecord else none
  | .attr _ | .declaration _ | .callback _ | .layer _ => some .frozen
  | _ => none

/-- The kind of a value, if it is compared by what it holds. -/
def kind? (w : World) (v : Value) : Option ValueKind :=
  match v with
  | .bool _ | .int _ => some .whole
  | .float _ _ => some .real
  | .bytes _ => some .bytes
  | .fields _ => some .dict
  | .plan _ => some .frozen
  | .settings _ => some .settings
  | .method _ _ _ => some .method
  | .tableView _ .values _ => none
  | .tableView _ _ table => some (if (w.entries? table).isSome then .shown else .snapshotShown)
  | v => if v.asText?.isSome then some .text else (w.heap.object? v).bind objectKind?

/-- Whether a value compares itself with another. -/
def compares (w : World) (a b : Value) : Bool :=
  match w.kind? a, w.kind? b with
  | some k, some l => k.partners.contains l
  | _, _ => false

end World

namespace Action

/-! ## Members of sets -/

/-- Whether an entry is shown: a pair of a key and what is kept under it. -/
def entryShown (same : Value → Value → Action Bool) (entries : List (Value × Value))
    (pair : Value) : Action Bool := do
  match (← get).tuple? pair with
  | some [key, x] =>
    match ← entryUnder entries key with
    | some y => samePart same y x
    | none => return false
  | _ => return false

/-- Whether an entry of a snapshot is shown, of which only the one under its key is read. -/
def snapshotEntryShown (same : Value → Value → Action Bool) (s : Snapshot) (pair : Value) :
    Action Bool := do
  let (key, x) ← bothParts pair
  match ← snapshotItem? s key with
  | some y => samePart same y x
  | none => return false

/-- Whether something that is a set has a member. -/
def hasMember (same : Value → Value → Action Bool) (v member : Value) : Action Bool := do
  let w ← get
  match v, w.heap.object? v with
  | .tableView _ aspect table, _ =>
    match aspect, w.entries? table, ← snapshot? table with
    | .keys, some entries, _ => return (← entryUnder entries member).isSome
    | _, some entries, _ => entryShown same entries member
    | .keys, none, some s => return (← snapshotItem? s member).isSome
    | _, none, some s => snapshotEntryShown same s member
    | _, none, none => wrongType
  | _, some (.set members) => setHas members member
  | _, _ => wrongType

/-- The size of something that is a set. -/
def setSize (v : Value) : Action Nat := do
  let w ← get
  match v, w.heap.object? v with
  | .tableView _ _ table, _ =>
    match w.entries? table, ← snapshot? table with
    | some entries, _ => return entries.length
    | none, some s => return (← snapshotTable s).length
    | none, none => wrongType
  | _, some (.set members) => return members.length
  | _, _ => wrongType

/-- Whether one set lies within another. -/
def isWithin (same : Value → Value → Action Bool) (a b : Value) : Action Bool := do
  allOn (hasMember same b) (← walk a)

/-! ## Equality -/

/-- The entries of a dictionary, or of a snapshot, which are read. -/
def mappingEntries (v : Value) : Action (List (Value × Value)) := do
  match (← get).entries? v, ← snapshot? v with
  | some entries, _ => return entries
  | none, some s => snapshotEntries s
  | none, none => wrongType

/-- Equality of two values, the first of which compares itself with the second. -/
def sameContents (same : Value → Value → Action Bool) (a b : Value) : Action Bool := do
  let w ← get
  match w.kind? a, w.kind? b with
  | some .snapshot, _ => do sameEntries same (← mappingEntries a) (← mappingEntries b)
  | some .set, some .set => return w.equal a b
  | some .set, _ | some .shown, _ | some .snapshotShown, _ => do
    if (← setSize a) = (← setSize b) then isWithin same a b else return false
  | _, _ =>
    match a.sameScalar? b with
    | some r => return r
    | none => (w.sameParts? same a b).getD (pure (a = b))

/-- Equality of values; `depth` bounds how many references are followed. -/
def equalAt : Nat → Value → Value → Action Bool
  | 0, _, _ => fail .endlessComparison
  | depth + 1, a, b => do
    let w ← get
    if w.compares a b then sameContents (equalAt depth) a b
    else if w.compares b a then sameContents (equalAt depth) b a
    else return a = b

/-- How many references are followed where values are compared. -/
def comparisonDepth : Action Nat := do return max 1000 (← get).comparingDepth

/-- What a value says of its equality with another; `none` where it does not know the other. -/
def ownEqual? (a b : Value) : Action (Option Bool) := do
  if (← get).compares a b then some <$> sameContents (equalAt (← comparisonDepth)) a b
  else return if a = b then some true else none

/-- **Equality of values.** A snapshot compared with a table is read whole; compared with
anything else it is not read at all. -/
def equal (a b : Value) : Action Bool := do equalAt (← comparisonDepth) a.behind b.behind

/-- Equality of a part and another value. -/
def equalPart (a b : Value) : Action Bool := samePart equal a b

/-! ## Order -/

/-- How two values are asked to stand to each other. -/
inductive Relation where
  | below
  | atMost
  | above
  | atLeast
  deriving DecidableEq, Repr

namespace Relation

/-- The relation of the second value to the first. -/
def flipped : Relation → Relation
  | .below => .above
  | .atMost => .atLeast
  | .above => .below
  | .atLeast => .atMost

/-- Whether an order is as a relation says. -/
def holds (r : Relation) : Ordering → Bool
  | .lt => r = .below || r = .atMost
  | .eq => r = .atMost || r = .atLeast
  | .gt => r = .above || r = .atLeast

end Relation

/-- The order of two numbers, texts or byte strings; what is not a number has none. -/
def scalarOrder? (a b : Value) : Option Ordering :=
  match a, b, a.asText?, b.asText?, a.asInt?, b.asInt? with
  | .float _ x, .float _ y, _, _, _, _ => x.compare? y
  | .float _ x, _, _, _, _, some n => x.compareInt? n
  | _, .float _ y, _, _, some m, _ => (y.compareInt? m).map Ordering.swap
  | _, _, _, _, some m, some n => some (compare m n)
  | .bytes bs, .bytes cs, _, _, _, _ => some (compare bs cs)
  | _, _, some s, some t, _, _ =>
    some (if s = t then .eq else if Text.before s t then .lt else .gt)
  | _, _, _, _, _, _ => none

/-- How two sequences stand to each other: by the first of their parts that differ, or else by their
lengths. -/
def sequencesStand (stand : Value → Value → Action Bool) (r : Relation) :
    List Value → List Value → Action Bool
  | x :: xs, y :: ys => do
    if ← equalPart x y then sequencesStand stand r xs ys else stand x y
  | xs, ys => return r.holds (compare xs.length ys.length)

/-- How two sets stand to each other: whether one lies within the other. -/
def setsStand (r : Relation) (a b : Value) : Action Bool := do
  if r.holds (compare (← setSize a) (← setSize b)) then
    match r with
    | .below | .atMost => isWithin equal a b
    | .above | .atLeast => isWithin equal b a
  else return false

/-- How two values stand to each other, the first of which compares itself with the second. -/
def contentsStand (stand : Value → Value → Action Bool) (r : Relation) (a b : Value) :
    Action Bool := do
  let w ← get
  match w.kind? a, w.heap.object? a, w.heap.object? b with
  | some .set, _, _ | some .shown, _, _ | some .snapshotShown, _, _ => setsStand r a b
  | _, some (.list xs), some (.list ys) | _, some (.tuple xs), some (.tuple ys) =>
    sequencesStand stand r xs ys
  | _, _, _ => return (scalarOrder? a b).any r.holds

/-- Whether a value has an order that the other is known in. -/
def ordersWith (w : World) (a b : Value) : Bool :=
  w.compares a b && (w.kind? a).any (·.isOrdered)

/-- How two values stand to each other; `depth` bounds how many references are followed. -/
def standAt (r : Relation) : Nat → Value → Value → Action Bool
  | 0, _, _ => fail .endlessComparison
  | depth + 1, a, b => do
    let w ← get
    if ordersWith w a b then contentsStand (standAt r depth) r a b
    else if ordersWith w b a then
      contentsStand (fun x y => standAt r depth y x) r.flipped b a
    else wrongType

/-- **How two values stand to each other**, which must have an order. -/
def stand (r : Relation) (a b : Value) : Action Bool := do standAt r (← comparisonDepth) a b

/-- What a value says of how it stands to another; `none` where it does not know the other. -/
def ownStand? (r : Relation) (a b : Value) : Action (Option Bool) := do
  if ordersWith (← get) a b then
    some <$> contentsStand (standAt r (← comparisonDepth)) r a b
  else return none

/-! ## Sorting -/

/-- Where a value is put among values in order: after all that it does not come before. The values
are halved each time, so `fuel` is how many there are. -/
def placeAmong (x : Value) (sorted : Array Value) : Nat → Nat → Nat → Action Nat
  | 0, low, _ => return low
  | fuel + 1, low, high => do
    if high ≤ low then return low
    let middle := low + (high - low) / 2
    if ← stand .below x (sorted.getD middle .null) then placeAmong x sorted fuel low middle
    else placeAmong x sorted fuel (middle + 1) high

/-- How many values at the start come each before the one before it, or each not before it. -/
def runLength (falling : Bool) : List Value → Action Nat
  | x :: y :: rest => do
    if (← stand .below y x) = falling then return (← runLength falling (y :: rest)) + 1
    else return 1
  | xs => return xs.length

/-- Puts values one by one among those in order. Where two have no order, those in order so far and
the others behind them are left. -/
def insertAll (sorted : Array Value) : List Value → Action (List Value × Option Failure)
  | [] => return (sorted.toList, none)
  | x :: rest => do
    match ← attempt (placeAmong x sorted sorted.size 0 sorted.size) with
    | .ok n => insertAll ((sorted.toList.take n ++ x :: sorted.toList.drop n).toArray) rest
    | .error e => return (sorted.toList ++ x :: rest, some e)

/-- **Values in order**, equal ones in the order that they had. What rises or falls at the start is
taken for a beginning. Where two values have no order, the failure comes with the values as far as
they are in order. -/
def sorted (xs : List Value) : Action (List Value × Option Failure) := do
  let first : Action (Bool × Nat) := do
    match xs with
    | x :: y :: _ => do
      let falling ← stand .below y x
      return (falling, ← runLength falling xs)
    | xs => return (false, xs.length)
  match ← attempt first with
  | .error e => return (xs, some e)
  | .ok (falling, n) =>
    let start := if falling then (xs.take n).reverse else xs.take n
    insertAll start.toArray (xs.drop n)

end Action

end TraitFactory
