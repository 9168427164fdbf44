import TraitFactory.Object.Arguments
import TraitFactory.Object.Interface
import TraitFactory.Object.Items

/-!
# Methods of sets

What sets do when a method of theirs is called, and what views of keys and of entries do that are
sets as well. Whatever is gone through is read one element at a time, and each must be able to be a
key.
-/

namespace TraitFactory

namespace Action

/-- Adds a value to members unless it is among them. -/
def withMember (members : List Value) (x : Value) : Action (List Value) := do
  if ← membersContain members x then return members else return members ++ [x]

/-- Members without one. -/
def withoutMember (members : List Value) (x : Value) : Action (List Value) := do
  requireKey x
  let w ← get
  return members.filter fun y => !w.sameKey y x

/-- The members that a value yields, each once. -/
def membersOf (v : Value) : Action (List Value) := do
  (← walk v).foldlM (fun members read => do withMember members (← read)) []

/-- The members that a set has at this time. -/
def membersNow (o : ObjectId) : Action (List Value) := do
  match (← get).heap.get? o with
  | some (.set members) => return members
  | _ => wrongType

def setMembers (o : ObjectId) (members : List Value) : Action Unit :=
  modify fun w => w.setObject o (.set members)

/-- Changes a set by each element of a value in turn. -/
def changeByEach (o : ObjectId) (change : List Value → Value → Action (List Value)) (v : Value) :
    Action Unit := do
  for read in ← walk v do
    let x ← read
    setMembers o (← change (← membersNow o) x)

/-- Those members that another value has, or has not. -/
def filterMembers (members : List Value) (has : Bool) (other : Value) : Action (List Value) := do
  let others ← membersOf other
  members.filterM fun x => do return (← membersContain others x) = has

/-- The members that just one of two lists has. -/
def differing (xs ys : List Value) : Action (List Value) := do
  let left ← xs.filterM fun x => do return !(← membersContain ys x)
  let right ← ys.filterM fun y => do return !(← membersContain xs y)
  return left ++ right

/-! ## Operators -/

/-- Ways of making one set of two. -/
inductive SetOperator where
  | meet
  | join
  | minus
  | differ
  deriving DecidableEq, Repr

/-- The names of an operator: on a set and another, the other way round, and in the set's place. -/
def SetOperator.names : List (SetOperator × String) :=
  [(.meet, "and"), (.join, "or"), (.minus, "sub"), (.differ, "xor")]

/-- The operator of a name, whether the operands change places, and whether the first is changed. -/
def SetOperator.find? (name : String) : Option (SetOperator × Bool × Bool) :=
  names.findSome? fun n =>
    if name = "__" ++ n.2 ++ "__" then some (n.1, false, false)
    else if name = "__r" ++ n.2 ++ "__" then some (n.1, true, false)
    else if name = "__i" ++ n.2 ++ "__" then some (n.1, false, true)
    else none

/-- The members that an operator gives. -/
def SetOperator.apply (op : SetOperator) (xs ys : List Value) : Action (List Value) := do
  match op with
  | .meet => xs.filterM fun x => membersContain ys x
  | .join => ys.foldlM withMember xs
  | .minus => xs.filterM fun x => do return !(← membersContain ys x)
  | .differ => differing xs ys

/-- An operator of a set, which knows only sets. -/
def operateOnSet (o : ObjectId) (members : List Value) (name : String) (other : Value) :
    Action Value := do
  match SetOperator.find? name with
  | none => wrongType
  | some (op, swapped, inPlace) =>
    if !(← isSet other) then return .notImplemented
    let others ← membersOf other
    let result ← if swapped then op.apply others members else op.apply members others
    if inPlace then
      setMembers o result
      return .object o
    else alloc (.set result)

/-- The elements of a value that something which is a set has, or has not, as members. -/
def elementsIn (v : Value) (has : Bool) (elements : Value) : Action (List Value) := do
  (← walk elements).foldlM (fun members read => do
    let x ← read
    if (← hasMember equal v x) = has then withMember members x else return members) []

/-- The members that a view shares with a value. Its elements are looked for in the view, but of two
sets the smaller one is gone through. -/
def sharedWithView (v other : Value) : Action (List Value) := do
  let w ← get
  let swapped ← match w.kind? v, w.kind? other with
    | some .shown, some .set => do pure (decide ((← setSize v) ≤ (← setSize other)))
    | some .shown, some .shown => do pure (decide ((← setSize v) < (← setSize other)))
    | _, _ => pure false
  if swapped then elementsIn other true v else elementsIn v true other

/-- The members that just one of a view and a value has. Two views of entries are asked for each
other's. -/
def differingFromView (v other : Value) : Action (List Value) := do
  let w ← get
  match v, other, w.kind? v, w.kind? other with
  | .tableView _ .items _, .tableView _ .items _, some .shown, some .shown => do
    return (← elementsIn other false v) ++ (← elementsIn v false other)
  | _, _, _, _ => do differing (← membersOf v) (← membersOf other)

/-- An operator of a view of a dictionary. What it gives is a set. -/
def operateOnShown (v : Value) (op : SetOperator) (swapped : Bool) (other : Value) :
    Action (List Value) := do
  match op with
  | .meet => sharedWithView v other
  | .differ => if swapped then differingFromView other v else differingFromView v other
  | op => do
    let members ← membersOf v
    let others ← membersOf other
    if swapped then op.apply others members else op.apply members others

/-! ### Views of snapshots

These know a member only by asking for it, and are gone through only to find their own members. -/

/-- Whether a value is a set by what it does: a set, or a view of keys or of entries. -/
def isSetLike (w : World) (v : Value) : Bool :=
  [some .set, some .shown, some .snapshotShown].contains (w.kind? v)

/-- Whether a value can be gone through. -/
def isIterable (w : World) : Value → Bool
  | .type _ | .model _ => false
  | v => (w.method? v "__iter__").isSome

/-- A value as something that can be asked for its members. -/
def asSetLike (v : Value) : Action Value := do
  if isSetLike (← get) v then return v else alloc (.set (← membersOf v))

/-- The members of a value that a view of a snapshot does not have. A view of a dictionary makes a
set of its own first. -/
def notInSnapshot (v other : Value) : Action (List Value) := do
  match (← get).kind? other with
  | some .shown => SetOperator.minus.apply (← membersOf other) (← membersOf v)
  | _ => elementsIn v false other

/-- An operator of a view of a snapshot. What it gives is a set. -/
def operateOnSnapshotShown (v : Value) (op : SetOperator) (swapped : Bool) (other : Value) :
    Action (List Value) := do
  match op with
  | .meet => elementsIn v true other
  | .join => do
    let members ← membersOf v
    (← walk other).foldlM (fun members read => do withMember members (← read)) members
  | .minus => do
    let other ← asSetLike other
    if swapped then elementsIn v false other else elementsIn other false v
  | .differ => do
    let other ← asSetLike other
    let left ← elementsIn other false v
    return left ++ (← notInSnapshot v other)

/-- An operator of a view that is a set. -/
def operateOnView (v : Value) (name : String) (other : Value) : Action Value := do
  let w ← get
  match SetOperator.find? name, w.kind? v with
  | some (op, swapped, false), some .snapshotShown =>
    if isIterable w other then do alloc (.set (← operateOnSnapshotShown v op swapped other))
    else return .notImplemented
  | some (op, swapped, false), _ => do alloc (.set (← operateOnShown v op swapped other))
  | _, _ => wrongType

/-- Whether something that is a set has no member that another value has. -/
def sharesNothing (v other : Value) : Action Bool := do
  allOn (fun x => do return !(← hasMember equal v x)) (← walk other)

/-- Whether the members of a set are all among the elements of a value. Reading these may add to the
set, and the new members count as well. -/
def liesIn (o : ObjectId) (members : List Value) (v : Value) : Action Bool := do
  if ← isSet v then return (← filterMembers members false v).isEmpty
  let met ← (← walk v).foldlM (fun met read => do
    let x ← read
    if ← membersContain (← membersNow o) x then withMember met x else return met) []
  return met.length = (← membersNow o).length

/-! ## Calls -/

/-- The methods of a set that change it. -/
def changeSet? (o : ObjectId) (members : List Value) (name : String) (arguments : List Value) :
    Option (Action Unit) :=
  match name, arguments with
  | "add", [x] => some do setMembers o (← withMember members x)
  | "discard", [x] => some do
    if ← setHas members x then setMembers o (← withoutMember members x)
  | "remove", [x] => some do
    if ← setHas members x then setMembers o (← withoutMember members x)
    else let _ ← missing x
  | "clear", [] => some (setMembers o [])
  | "update", others => some (others.forM (changeByEach o withMember))
  | "difference_update", others => some <| others.forM fun v =>
    if v = .object o then setMembers o [] else changeByEach o withoutMember v
  | "intersection_update", others => some do
    setMembers o (← others.foldlM (fun ms v => filterMembers ms true v) members)
  | "symmetric_difference_update", [v] => some do
    let others ← membersOf v
    setMembers o (← differing members others)
  | _, _ => none

/-- The methods of a set that give another one. -/
def newSet? (members : List Value) (name : String) (arguments : List Value) :
    Option (Action (List Value)) :=
  match name, arguments with
  | "copy", [] => some (return members)
  | "union", others => some do
    others.foldlM (fun ms v => do
      (← walk v).foldlM (fun ms read => do withMember ms (← read)) ms) members
  | "intersection", others => some (others.foldlM (fun ms v => filterMembers ms true v) members)
  | "difference", others => some (others.foldlM (fun ms v => filterMembers ms false v) members)
  | "symmetric_difference", [v] => some do differing members (← membersOf v)
  | _, _ => none

/-- **The methods of a set.** -/
def callSet (o : ObjectId) (members : List Value) (name : String) (arguments : List Value) :
    Action Value := do
  match changeSet? o members name arguments, newSet? members name arguments with
  | some change, _ => do
    change
    return .null
  | none, some result => do alloc (.set (← result))
  | none, none =>
    match name, arguments with
    | "pop", [] =>
      match Value.inSetOrder members with
      | x :: rest => do
        setMembers o rest
        return x
      | [] => fail (.missingKey (Text.quoted "pop from an empty set"))
    | "issubset", [v] => do return .bool (← liesIn o members v)
    | "issuperset", [v] => do return .bool (← allOn (membersContain members) (← walk v))
    | "isdisjoint", [v] => do
      return .bool (← allOn (fun x => do return !(← membersContain members x)) (← walk v))
    | name, [other] => operateOnSet o members name other
    | _, _ => wrongType

/-- **The methods of a view that is a set.** -/
def callView (v : Value) (name : String) (arguments : List Value) : Action Value := do
  match name, arguments with
  | "isdisjoint", [other] => do return .bool (← sharesNothing v other)
  | name, [other] => operateOnView v name other
  | _, _ => wrongType

end Action

end TraitFactory
