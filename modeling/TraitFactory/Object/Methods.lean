import TraitFactory.Object.Construct
import TraitFactory.Object.Items

/-!
# Methods

Calling the methods of instances, snapshots and things with parts that may not change. The
methods of an instance are those its model describes, and take no argument.
-/

namespace TraitFactory

namespace Action

/-! ## Instances -/

/-- Runs a method of an instance. -/
def runMethodOf (host : Host) (v : Value) (name : String) : Method → Action Value
  | .announceFields => do
    let w ← get
    match w.heap.object? v with
    | some (.record _ fields) =>
      announce [.text name, .dict (fields.entries.map fun f => (.text f.1, w.view f.2))]
    | _ => pure ()
    return .null
  | .announceField field => do
    let x ← getAttr host v field
    announce [.text name, (← get).view x]
    return .null
  | .noteDown field => do
    let _ ← callNamed host (← getAttr host v field) "append" [.text name]
    return .null
  | .refuse message => fail (.runtime message)

/-- A method of a model, called with the instance that it is a method of. -/
def callModelMethod (host : Host) (m : Model) (name : String) (arguments : List Value) :
    Action Value := do
  match m.method? name, arguments with
  | some method, [v] => runMethodOf host v name method
  | _, _ => wrongType

/-- Calls something that is no method, with keywords besides positions. Of functions only those
that collect keywords take any. -/
def callPlainly (host : Host) (f : Value) (arguments : List Value)
    (keywords : List (String × Value)) : Action Value := do
  match f with
  | .model m => construct m arguments keywords
  | .function id =>
    let takesAny := ((← get).function? id).any fun f => f.signature.contains .keywords
    if keywords.isEmpty || takesAny then host.call f arguments else wrongType
  | _ => if keywords.isEmpty then host.call f arguments else wrongType

/-! ## Snapshots -/

/-- **The `new` method of a snapshot**: an instance of the factory's model. -/
def instantiate (host : Host) (s : Snapshot) (arguments : List Value)
    (keywords : List (String × Value)) : Action Value :=
  match s.model with
  | .null => construct Model.namespaceModel arguments keywords
  | f => callPlainly host f arguments keywords

/-! ## Copies of what may not change -/

/-- Another object with the same parts. -/
def sameAgain (v : Value) : Action Value := do
  match v, (← get).heap.object? v with
  | .plan p, _ => do return .plan (← newPlan (← getStored p))
  | _, some (.declaration d) => do
    return .object (← newDeclaration d.name d.value d.valueObject d.origin).object
  | _, some (.callback c) => do return .object (← newCallback c.event c.fn c.owner).object
  | _, some x => alloc x
  | _, none => wrongType

end Action

end TraitFactory
