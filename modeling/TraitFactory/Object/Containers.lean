import TraitFactory.Object.Arguments
import TraitFactory.Object.Items

/-!
# Methods of containers

What lists, tuples and dictionaries do when a method of theirs is called. A container that is
changed stays the object that it is.
-/

namespace TraitFactory

namespace Action

/-! ## Sequences -/

/-- The place of the first element of a kind. -/
def firstPlace (has : Value → Action Bool) : List Value → Action (Option Nat)
  | [] => return none
  | x :: xs => do if ← has x then return some 0 else return (← firstPlace has xs).map (· + 1)

/-- The place of a value in a sequence, between two bounds. -/
def placeIn (items : List Value) (x : Value) (bounds : List Value) : Action (Option Nat) := do
  let start ← boundOf items.length 0 bounds[0]?
  let stop ← boundOf items.length items.length bounds[1]?
  return (← firstPlace (equalPart · x) ((items.take stop).drop start)).map (· + start)

def countIn (items : List Value) (x : Value) : Action Value := do
  return .int (← items.filterM (equalPart · x)).length

def setItems (o : ObjectId) (items : List Value) : Action Unit :=
  modify fun w => w.setObject o (.list items)

/-- The items of a sequence over and over. -/
def repeatedItems (items : List Value) (times : Value) : Action (List Value) := do
  let n := (← timesOf times).toNat
  roomFor (n * items.length)
  return if items.isEmpty then [] else (List.replicate n items).flatten

/-- Takes the item out of a list that a position means, the last one if none is given. -/
def popItem (o : ObjectId) (items : List Value) (position : Option Value) : Action Value := do
  let i ← position.elim (pure (-1)) sizeOf
  if items.isEmpty then fail (.badIndex "pop from empty list")
  match position? items.length i with
  | none => fail (.badIndex "pop index out of range")
  | some n => do
    setItems o (items.eraseIdx n)
    return items.getD n .null

/-- Puts a list in order, as far as it goes. -/
def sortItems (o : ObjectId) (items : List Value) : Action Unit := do
  let (items, failure) ← sorted items
  setItems o items
  match failure with
  | some e => throw e
  | none => return

/-- The methods of a list that change it and give nothing. -/
def changeList? (o : ObjectId) (items : List Value) (name : String) (arguments : List Value) :
    Option (Action Unit) :=
  match name, arguments with
  | "append", [x] => some (setItems o (items ++ [x]))
  | "extend", [v] => some do setItems o (items ++ (← elements v))
  | "insert", [i, x] => some do
    let i ← sizeOf i
    let n ← boundOf items.length 0 (some (.int i))
    setItems o (items.take n ++ x :: items.drop n)
  | "remove", [x] => some do
    match ← placeIn items x [] with
    | some n => setItems o (items.eraseIdx n)
    | none => fail (.badValue "list.remove(x): x not in list")
  | "clear", [] => some (setItems o [])
  | "reverse", [] => some (setItems o items.reverse)
  | "sort", [] => some (sortItems o items)
  | _, _ => none

/-- **The methods of a list.** -/
def callList (o : ObjectId) (items : List Value) (name : String) (arguments : List Value) :
    Action Value := do
  match changeList? o items name arguments, name, arguments with
  | some change, _, _ => do
    change
    return .null
  | none, "pop", position => popItem o items position.head?
  | none, "copy", [] => alloc (.list items)
  | none, "count", [x] => countIn items x
  | none, "index", x :: bounds => do
    match ← placeIn items x bounds with
    | some n => return .int n
    | none => fail (.badValue ((← quoted x) ++ " is not in list"))
  | none, "__add__", [v] =>
    match (← get).heap.object? v with
    | some (.list others) => alloc (.list (items ++ others))
    | _ => wrongType
  | none, "__iadd__", [v] => do
    setItems o (items ++ (← elements v))
    return .object o
  | none, "__mul__", [n] | none, "__rmul__", [n] => do alloc (.list (← repeatedItems items n))
  | none, "__imul__", [n] => do
    setItems o (← repeatedItems items n)
    return .object o
  | none, _, _ => wrongType

/-- **The methods of a tuple.** -/
def callTuple (o : ObjectId) (items : List Value) (name : String) (arguments : List Value) :
    Action Value := do
  match name, arguments with
  | "count", [x] => countIn items x
  | "index", x :: bounds => do
    match ← placeIn items x bounds with
    | some n => return .int n
    | none => fail (.badValue "tuple.index(x): x not in tuple")
  | "__add__", [v] =>
    match (← get).tuple? v with
    | some others => Parts.tuple (items ++ others)
    | none => wrongType
  | "__mul__", [n] | "__rmul__", [n] => do Parts.tuple (← repeatedItems items n)
  | "__getnewargs__", [] => do Parts.tuple [.object o]
  | _, _ => wrongType

/-! ## Tables -/

/-- The methods by which dictionaries and snapshots are looked into. -/
def callTable (table : Value) (name : String) (arguments : List Value) : Action Value := do
  let shown := fun (aspect : TableAspect) => do return .tableView (← newSerial) aspect table
  match name, arguments with
  | "get", [key] => tableFind table key .null
  | "get", [key, default] => tableFind table key default
  | "keys", [] => shown .keys
  | "values", [] => shown .values
  | "items", [] => shown .items
  | _, _ => wrongType

/-- A dictionary without the entry of a key. -/
def eraseKey (entries : List (Value × Value)) (key : Value) : Action (List (Value × Value)) := do
  let w ← get
  return entries.filter fun e => !w.sameKey e.1 key

/-- Takes an entry out of a dictionary. An empty one does not look at the key. -/
def popEntry (table : Value) (entries : List (Value × Value)) (key : Value)
    (default : Option Value) : Action Value := do
  let found ← if entries.isEmpty then pure none else entryUnder entries key
  match found, default with
  | some x, _ => do
    setEntries table (← eraseKey entries key)
    return x
  | none, some d => return d
  | none, none => missing key

/-- Adds entries read from pairs, one after another. -/
def updateFromPairs (table : Value) (pairs : Walk) : Action Unit :=
  pairs.zipIdx.forM fun read => do
    let (k, x) ← entryOf read.2 (← read.1)
    setItem table k x

/-- Adds what another value has, then keywords. -/
def updateTable (host : Host) (table : Value) (other : Option Value)
    (keywords : List (String × Value)) : Action Unit := do
  match other with
  | none => pure ()
  | some v =>
    match ← namedEntries? host v with
    | some entries => entries.forM fun e => setItem table e.1 e.2
    | none => updateFromPairs table (← walk v)
  keywords.forM fun k => setItem table (.text k.1) k.2

/-- A dictionary with the entries of another added, if that is one. -/
def merged (entries : List (Value × Value)) (other : Value) : Action Value := do
  match (← get).entries? other with
  | some others => Parts.dict (← others.foldlM (fun es e => addEntry es e.1 e.2) entries)
  | none => return .notImplemented

/-- **The methods of a dictionary.** -/
def callDict (host : Host) (table : Value) (entries : List (Value × Value)) (name : String)
    (arguments : List Value) (keywords : List (String × Value)) : Action Value := do
  match name, arguments with
  | "pop", [key] => popEntry table entries key none
  | "pop", [key, default] => popEntry table entries key (some default)
  | "popitem", [] =>
    match entries.getLast? with
    | some e => do
      setEntries table entries.dropLast
      Parts.tuple [e.1, e.2]
    | none => fail (.missingKey (Text.quoted "popitem(): dictionary is empty"))
  | "setdefault", key :: default => do
    match ← entryUnder entries key with
    | some x => return x
    | none => do
      setItem table key (default.headD .null)
      return default.headD .null
  | "update", others => do
    updateTable host table others.head? keywords
    return .null
  | "clear", [] => do
    setEntries table []
    return .null
  | "copy", [] => Parts.dict entries
  | "fromkeys", keys :: value => do
    let x := value.headD .null
    Parts.dict (← (← walk keys).foldlM (fun es read => do addEntry es (← read) x) [])
  | "__or__", [v] => merged entries v
  | "__ror__", [v] =>
    match (← get).entries? v with
    | some others => merged others table
    | none => return .notImplemented
  | "__ior__", [v] => do
    updateTable host table (some v) []
    return table
  | "__delitem__", [key] => do
    deleteItem table key
    return .null
  | name, arguments => callTable table name arguments

end Action

end TraitFactory
