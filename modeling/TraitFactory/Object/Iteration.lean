import TraitFactory.Object.Items

/-!
# Iterations

What goes through a value one element at a time. An iteration remembers how far it has come; the
elements themselves are read from its source when they are asked for.
-/

namespace TraitFactory

namespace World

/-- The name of the type of what goes through a dictionary, by what it shows. -/
def tableIteration (aspect : TableAspect) (backwards : Bool) : String :=
  let shown := match aspect with
    | .keys => "key"
    | .values => "value"
    | .items => "item"
  "dict_" ++ (if backwards then "reverse" else "") ++ shown ++ "iterator"

/-- The name of the type of what goes through a value. -/
def iterationType (w : World) (v : Value) (backwards : Bool) : String :=
  match v, w.heap.object? v with
  | _, some (.list _) => if backwards then "list_reverseiterator" else "list_iterator"
  | _, some (.tuple _) => "tuple_iterator"
  | _, some (.set _) => "set_iterator"
  | _, some (.attributes _) => "list_iterator"
  | _, some (.dict _) | .fields _, _ => tableIteration .keys backwards
  | _, some (.snapshot _) => tableIteration .keys false
  | .tableView _ aspect table, _ =>
    if (w.entries? table).isSome then tableIteration aspect backwards else "generator"
  | .bytes _, _ => "bytes_iterator"
  | v, _ =>
    match v, v.asText? with
    | .text s, _ =>
      if (Text.codes s).all (·.toNat < 128) then "str_ascii_iterator" else "str_iterator"
    | _, some _ => "str_iterator"
    | _, none => "generator"

end World

namespace Action

/-- **An iteration through a value.** One through an iteration is that itself. -/
def iterate (v : Value) (backwards : Bool) : Action Value := do
  let v := v.behind
  let w ← get
  match w.heap.object? v with
  | some (.iteration _) => return v
  | _ => do
    let type := w.iterationType v backwards
    let size := (← walk v).length
    let source ← match w.heap.object? v with
      | some (.snapshot s) => pure s.table
      | some (.attributes s) => Parts.list (s.declarations.map fun d => .object d.object)
      | _ => pure v
    alloc (.iteration { type, source, backwards, size })

/-- The failure of an iteration that has come to its end. -/
def endOfIteration : Cause := .other "StopIteration" ""

/-- Notes that an iteration has come to its end, or that this is not known yet. -/
def setFinished (o : ObjectId) (finished : Bool) : Action Unit := do
  if let some (.iteration i) := (← get).heap.get? o then
    modify fun w => w.setObject o (.iteration { i with finished })

/-- The next element of an iteration. Only when there is none has it come to its end, and there it
stays. -/
def nextElement (o : ObjectId) : Action Value := do
  match ← walk (.object o) with
  | read :: _ => do
    let v ← read
    setFinished o false
    return v
  | [] => fail endOfIteration

/-- How many elements an iteration has left, as far as it knows. -/
def elementsLeft (i : Iteration) : Action Nat := do
  if i.finished then return 0
  let all := (← walkPlain i.source).length
  match sizeFixedIn (← get) i.source with
  | some _ => return if all = i.size then all - i.taken else 0
  | none =>
    if i.backwards then return if i.size - i.taken ≤ all then i.size - i.taken else 0
    else return all - i.taken

/-- **The methods of an iteration.** -/
def callIteration (o : ObjectId) (i : Iteration) (name : String) (arguments : List Value) :
    Action Value := do
  match name, arguments with
  | "__next__", [] => nextElement o
  | "__iter__", [] => return .object o
  | "__length_hint__", [] => return .int (← elementsLeft i)
  | "send", [.null] => nextElement o
  | "close", [] => do
    setFinished o true
    return .null
  | _, _ => wrongType

end Action

end TraitFactory
