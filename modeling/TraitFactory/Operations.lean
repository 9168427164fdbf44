import TraitFactory.Builder
import TraitFactory.Object.Conversion
import TraitFactory.Object.Iteration
import TraitFactory.Object.Methods
import TraitFactory.Runner

/-!
# Operations as methods

What happens when a method of a value is called. A call has to fit the parameters that the
interface of the value states.
-/

namespace TraitFactory

namespace Action

def nothing (a : Action Unit) : Action Value := do
  a
  return .null

/-- The text that a name must be. -/
def nameOf (v : Value) : Action String :=
  match v.asText? with
  | some s => return s
  | none => wrongType

/-! ## Declaring -/

def callBuilder (builder : Value) (name : String) (arguments : List Value) : Action Value := do
  match name, arguments with
  | "set", [attr] => setAttribute builder attr none .null
  | "set", [attr, v] => setAttribute builder attr (some v) .null
  | "association", attr :: rest => do
    let traits ← Parts.tuple rest.tail
    associate builder attr (rest.headD .null) (some traits) none none
  | "apply", traits => do apply builder (← Parts.tuple traits)
  | "initialize_with", [fn] => initializeWith builder fn
  | "to_create", [fn] => toCreate builder fn
  | "callback", [event, fn] => callback builder event fn
  | "trait", [trait] => localTrait builder trait
  | "factory", factory :: model => childFactory builder factory (model.headD .null) none
  | "__enter__", [] => return builder
  | "__exit__", _ => return .null
  | event, [fn] => callbackMethod builder (.text event) fn
  | _, _ => wrongType

/-- The levels of a factory, oldest first. -/
def lineageOf (d : DefinitionId) : Action Value := do
  let lineage := (← get).definitions.lineage d
  if lineage.closed then Parts.list (lineage.levels.reverse.map .definition) else noAttribute

def callDefinition (d : DefinitionId) (name : String) (arguments : List Value) :
    Action Value := do
  match name, arguments with
  | "declare", [attr, v] => nothing (declare d attr v)
  | "apply_trait", [ref] => nothing (applyTrait d ref)
  | "add_callback", [event, fn] => do return .object (← addCallback d event fn).object
  | "all_callbacks", [] => do
    let callbacks ← liftExcept ((← get).callbacksOf (← getDefinition d).callbacks)
    Parts.tuple (Parts.callbacks callbacks)
  | "lineage", [] => lineageOf d
  | _, _ => wrongType

/-- A declaration, or nothing. -/
def orNothing : Option Declaration → Value
  | some d => .object d.object
  | none => .null

def callAttributes (o : ObjectId) (s : AttributeSet) (name : String) (arguments : List Value) :
    Action Value := do
  match name, arguments with
  | "names", [] => Parts.list (s.names.map .text)
  | "declarations", [] => Parts.tuple (Parts.declarations s.declarations)
  | "get", [attr] => do return orNothing (← declaredUnder s attr)
  | "declare", [attr, v] => do return .object (← declareIn o attr v (.text "")).object
  | "declare", [attr, v, origin] => do return .object (← declareIn o attr v origin).object
  | "merge_over", [others] => mergeOver o others
  | _, _ => wrongType

def callRegistry (r : RegistryId) (name : String) (arguments : List Value) : Action Value := do
  match name, arguments with
  | "touch", [] => nothing (touch r)
  | "reset", [] => nothing (resetRegistry r)
  | "factory", [ref] => findFactoryValue r ref
  | "resolve_trait", [scope, ref] => resolveTraitValue r scope ref
  | "_scope_factory", [scope] => do
    return ((← scopeFactory r scope).map Value.definition).getD .null
  | "register_factory", [.definition d] => do
    registerFactory r d
    return .definition d
  | "register_trait", [scope, trait, .definition d] => do
    registerTrait r scope trait d
    return .definition d
  | _, _ => noAttribute

/-! ## Compiling and running -/

def callResolver (r : RegistryId) (name : String) (arguments : List Value) : Action Value := do
  match name, arguments with
  | "compile", factory :: traits => do return .plan (← compileBy r factory traits.head?)
  | "invalidate", [] => nothing (invalidateCache r)
  | _, _ => wrongType

/-- The declaration of an attribute in a plan, or nothing. -/
def planDeclaration (p : PlanId) (attr : Value) : Action Value := do
  return orNothing (attr.asText?.bind (← getPlan p).declaration?)

/-- The callbacks of a plan for an event. -/
def planCallbacks (p : PlanId) (event : Value) : Action Value := do
  let fired := (← getPlan p).callbacks.filter fun c => event.asText? = some c.event.name
  Parts.list (Parts.callbacks fired)

def callPlan (p : PlanId) (name : String) (arguments : List Value) : Action Value := do
  match name, arguments with
  | "attribute_names", [] => do Parts.list ((← getPlan p).names.map .text)
  | "declaration", [attr] => planDeclaration p attr
  | "callbacks_for", [event] => planCallbacks p event
  | "model_copy", [] | "copy", [] => sameAgain (.plan p)
  | "model_dump", [] | "dict", [] => dump (.plan p)
  | _, _ => wrongType

/-- One run, or as many as a count asks for. -/
def runCounted (host : Host) (r : RunnerId) (count : Option Value) (input : RunInput) :
    Action Value :=
  match count with
  | none => run host r input
  | some n => runList host r n input

/-- The strategy that a method is named for, and whether the method runs several times. -/
def strategyMethod? (name : String) : Option (Strategy × Bool) :=
  match Strategy.find? name with
  | some s => some (s, false)
  | none => (Strategy.all.find? fun s => s.name ++ "_list" = name).map (·, true)

/-- The methods named for a strategy, for one run and for several. -/
def callStrategy (host : Host) (r : RunnerId) (name : String) (arguments : List Value)
    (keywords : List (String × Value)) : Action Value := do
  let runWith := fun (s : Strategy) (count : Option Value) (factory : Value)
      (traits : List Value) => do
    let input : RunInput :=
      { strategy := .keyword (.strategy s), factory := factory, traits := ← Parts.tuple traits }
    runCounted host r count
      (← methodInput s input (keywords.map fun k => (.text k.1, k.2)))
  match strategyMethod? name, arguments with
  | some (s, false), factory :: traits => runWith s none factory traits
  | some (s, true), factory :: count :: traits => runWith s (some count) factory traits
  | _, _ => wrongType

def callRunner (host : Host) (r : RunnerId) (name : String) (arguments : List Value)
    (keywords : List (String × Value)) : Action Value := do
  let input := fun (strategy factory : Value) (rest : List Value) =>
    ({ strategy := strategy, factory := factory, traits := rest[0]?,
       overrides := rest.getD 1 .null } : RunInput)
  match name, arguments with
  | "compile", factory :: traits => do
    return .plan (← compile (← registryOf r) factory traits.head?)
  | "reset", [] => nothing (resetRunner host r)
  | "run", strategy :: factory :: rest => run host r (input strategy factory rest)
  | "run_list", strategy :: factory :: count :: rest =>
    runList host r count (input strategy factory rest)
  | "_associate", [factory, traits, overrides, strategy] =>
    runAssociated host r factory traits overrides strategy
  | _, _ => callStrategy host r name arguments keywords

def callEvaluator (host : Host) (ev : EvaluatorId) (name : String) (arguments : List Value) :
    Action Value := do
  match name, arguments with
  | "reset_stub_ids", [] => nothing (resetIds host ev)
  | "evaluate", .plan p :: strategy :: rest =>
    evaluate host ev p strategy (rest.headD .null) none none
  | "_construct", [.plan p, attributes] => do constructWith host (← getPlan p) attributes
  | "_persist", [.plan p, v] => do nothing (persist host (← getPlan p) v)
  | "_stub", [v, attributes] => nothing (stub host ev v attributes)
  | "_run_callbacks", [.plan p, event, v, .evaluation e] => do
    let plan ← getPlan p
    match event.asText?.bind Event.find? with
    | some event => nothing (fire host plan event v (.context e))
    | none => return .null
  | _, _ => noAttribute

/-- Computes anew what a declaration declares. -/
def computeDeclared (host : Host) (e : EvaluationId) (v : Value) : Action Value := do
  match (← get).heap.declaration? v with
  | some d => compute host e d
  | none => noAttribute

/-- The value of an association under a name. -/
def buildNamed (host : Host) (e : EvaluationId) (name : String) (v : Value) : Action Value := do
  match v, (← get).heap.attribute? v with
  | .object o, some (.association a) =>
    buildAssociation host e ⟨name, .association a, "", o, o⟩ a
  | _, _ => noAttribute

def callEvaluation (host : Host) (e : EvaluationId) (name : String) (arguments : List Value) :
    Action Value := do
  match name, arguments with
  | "read", [attr] => do read host e (← nameOf attr)
  | "resolve", [] => do
    Parts.dict ((← resolve host e).entries.map fun a => (.text a.1, a.2))
  | "_compute", [d] => computeDeclared host e d
  | "_build_association", [attr, a] => do buildNamed host e (← nameOf attr) a
  | _, _ => wrongType

def callContext (host : Host) (e : EvaluationId) (name : String) (arguments : List Value) :
    Action Value := do
  match name, arguments with
  | "get", key :: default => contextFind host e key (default.headD .null)
  | "__getattr__", [key] =>
    match key, key.asText? with
    | _, some name => contextAttribute host e name
    | .bytes _, none => wrongType
    | _, none => noAttribute
  | _, _ => wrongType

/-! ## Calls -/

def callSnapshot (host : Host) (v : Value) (s : Snapshot) (name : String)
    (arguments : List Value) (keywords : List (String × Value)) : Action Value :=
  if name = "new" then instantiate host s arguments keywords else callTable v name arguments

/-- Calls a method of an object. -/
def callObject (host : Host) (o : ObjectId) (object : Object) (name : String)
    (arguments : List Value) (keywords : List (String × Value)) : Action Value := do
  let v : Value := .object o
  match object, name, arguments with
  | .list items, _, _ => callList o items name arguments
  | .tuple items, _, _ => callTuple o items name arguments
  | .dict entries, _, _ => callDict host v entries name arguments keywords
  | .set members, _, _ => callSet o members name arguments
  | .record m _, _, [] =>
    match m.method? name with
    | some method => runMethodOf host v name method
    | none => wrongType
  | .snapshot s, _, _ => callSnapshot host v s name arguments keywords
  | .iteration i, _, _ => callIteration o i name arguments
  | .attributes s, _, _ => callAttributes o s name arguments
  | .attr (.computed fn), "evaluate", [context] =>
    if (← get).arity fn = 0 then host.call fn [] else host.call fn [context]
  | .callback c, "invoke", [instanceValue, context] => do
    let _ ← invoke host c.fn instanceValue context
    return .null
  | _, "model_copy", [] | _, "copy", [] => sameAgain v
  | _, "model_dump", [] | _, "dict", [] => dump v
  | _, _, _ => wrongType

/-- Calls a method that a value has by its own kind. -/
def callOwn (host : Host) (receiver : Value) (name : String) (arguments : List Value)
    (keywords : List (String × Value)) : Action Value := do
  let w ← get
  match receiver, receiver.asText? with
  | _, some s => callText host receiver s name arguments keywords
  | .object o, _ =>
    match w.heap.get? o with
    | some object => callObject host o object name arguments keywords
    | none => wrongType
  | .fields _, _ => do callDict host receiver (← entriesOf (some receiver)) name arguments keywords
  | .bytes bs, _ => callBytes host bs name arguments
  | .bool _, _ | .int _, _ | .float _ _, _ => callNumber receiver name arguments
  | .tableView _ _ _, _ => callView receiver name arguments
  | .null, _ => return .bool false
  | .inner "mappingproxy" table _, _ => do
    callDict host table (← entriesOf (some table)) name arguments keywords
  | .inner _ _ _, _ => return .bool true
  | .enumeration member, _ =>
    match arguments with
    | [x] => memberOf member x
    | _ => wrongType
  | .context e, _ => callContext host e name arguments
  | .model m, _ => callModelMethod host m name arguments
  | .builder _, _ => callBuilder receiver name arguments
  | .definition d, _ => callDefinition d name arguments
  | .registry r, _ => callRegistry r name arguments
  | .resolver r, _ => callResolver r name arguments
  | .plan p, _ => callPlan p name arguments
  | .runner r, _ => callRunner host r name arguments keywords
  | .evaluator ev, _ => callEvaluator host ev name arguments
  | .evaluation e, _ => callEvaluation host e name arguments
  | _, _ => wrongType

/-- What a value says of itself and another, or that it does not know the other. -/
def saying (answer : Action (Option Bool)) : Action Value := do
  return (← answer).elim .notImplemented .bool

/-- Comparisons of a value with another when they are called as methods. A dictionary that can only
be read leaves them to what is behind it, and one of the two must know the other. -/
def comparison? (v : Value) (name : String) (x : Value) : Option (Action Value) :=
  if v.behind = v then
    match name with
    | "__eq__" => some (saying (ownEqual? v x))
    | "__ne__" => some (saying do return (← ownEqual? v x).map (!·))
    | "__lt__" => some (saying (ownStand? .below v x))
    | "__le__" => some (saying (ownStand? .atMost v x))
    | "__gt__" => some (saying (ownStand? .above v x))
    | "__ge__" => some (saying (ownStand? .atLeast v x))
    | _ => none
  else
    match name with
    | "__eq__" => some do return .bool (← equal v x)
    | "__ne__" => some do return .bool !(← equal v x)
    | "__lt__" | "__le__" | "__gt__" | "__ge__" => some wrongType
    | _ => none

/-- Whether a value is a number. -/
def isNumber : Value → Bool
  | .bool _ | .int _ | .float _ _ => true
  | _ => false

/-- **What operations on a value do when they are called as methods**; `none` for all other
methods. -/
def operation? (host : Host) (v : Value) (name : String) (arguments : List Value)
    (keywords : List (String × Value)) : Option (Action Value) :=
  match name, arguments with
  | "__len__", [] => some do return .int (← length v)
  | "__iter__", [] => some (iterate v false)
  | "__reversed__", [] => some (iterate v true)
  | "__contains__", [key] => some do return .bool (← contains v key)
  | "__getitem__", [key] => some (getItem host v key)
  | "__setitem__", [key, x] => some (nothing (setItem v key x))
  | "__delitem__", [key] => some (nothing (deleteItem v key))
  | "__repr__", [] => some do return .text (← quoted v)
  | "__str__", [] => some do return .text (← plainText v)
  | "__format__", [spec] => some do
    let spec ← nameOf spec
    let shown ← formatted v spec
    return if spec.isEmpty then .text shown else v.inText shown
  | "__hash__", [] => if isNumber v then none else some (return .int 0)
  | "__getattribute__", [key] => some do getAttr host v (← nameOf key)
  | "__setattr__", [key, x] => some (nothing do setAttr v (← nameOf key) x)
  | "__delattr__", [key] => some (nothing do deleteAttr v (← nameOf key))
  | "__copy__", [] | "__deepcopy__", [_] => some (return v)
  | "__call__", arguments =>
    match v with
    | .enumeration _ => none
    | v => some (callPlainly host v arguments keywords)
  | name, [x] => comparison? v name x
  | _, _ => none

/-- Calls a method with a value that has it. -/
def callBound (host : Host) (receiver : Value) (name : String) (arguments : List Value)
    (keywords : List (String × Value)) : Action Value := do
  let fits := fun (s : Signature) =>
    s.accepts arguments.length && (keywords.isEmpty || s.contains .keywords)
  if !((← get).method? receiver name).any fits then wrongType
  match operation? host receiver name arguments keywords with
  | some result => result
  | none => callOwn host receiver name arguments keywords

/-! ## Methods of types -/

/-- Whether a value is one of a type's. -/
def isInstance (w : World) (v : Value) (type : String) : Bool :=
  type = "object" || (ancestors (w.typeName v)).contains type
    || (type = "str" && v.asText?.isSome)

/-- A value of a type as if it had no other type besides. -/
def asType (type : String) (v : Value) : Value :=
  match type, v, v.asText? with
  | "int", .bool b, _ => .int (if b then 1 else 0)
  | "str", _, some s => .text s
  | _, v, _ => v

/-- What counts as false in a type, of those that have methods of their own. -/
def emptyOf (type : String) : Action Value := do
  match type with
  | "str" => return .text ""
  | "bytes" => return .bytes []
  | "int" => return .int 0
  | "bool" => return .bool false
  | "float" => newFloat .zero
  | _ => alloc (.dict [])

/-- What truth values do not do as whole numbers do. -/
def ownOfBool : List String :=
  World.metaMethods ++ ["from_bytes", "__repr__", "__and__", "__or__", "__xor__", "__rand__",
    "__ror__", "__rxor__"]

/-- What nothing does in its own way. -/
def ownOfNull : List String := World.metaMethods ++ ["__repr__", "__bool__"]

/-- The type whose methods a type has under a name. Most of those of truth values are those of whole
numbers, and nothing has hardly any of its own. -/
def typeWithMethod (type name : String) : String :=
  if type = "bool" && !ownOfBool.contains name then "int"
  else if type = "NoneType" && !ownOfNull.contains name then "object"
  else type

/-- Calls a method of a type. Most methods take a value of the type first. -/
def callTypeMethod (host : Host) (type name : String) (arguments : List Value)
    (keywords : List (String × Value)) : Action Value := do
  let w ← get
  let type := typeWithMethod type name
  match name, arguments with
  | "mro", [] => Parts.list ((ancestors type).map .type)
  | "__call__", arguments => makeOf host type arguments keywords
  | "__instancecheck__", [v] => return .bool (isInstance w v type)
  | "__subclasscheck__", [.type other] => return .bool ((ancestors other).contains type)
  | name, arguments =>
    if Interface.classMethods.contains (type, name) then
      callBound host (← emptyOf type) name arguments keywords
    else
      match arguments with
      | v :: rest =>
        if isInstance w v type then callBound host (asType type v) name rest keywords
        else wrongType
      | [] => wrongType

/-- **Calls a method.** -/
def callMethod (host : Host) (receiver : Value) (name : String) (arguments : List Value)
    (keywords : List (String × Value)) : Action Value :=
  match receiver with
  | .type type => callTypeMethod host type name arguments keywords
  | receiver => callBound host receiver name arguments keywords

/-- **Calls a value with keywords** besides positions. -/
def callWith (host : Host) (f : Value) (arguments : List Value)
    (keywords : List (String × Value)) : Action Value :=
  match f with
  | .method _ receiver name => callMethod host receiver name arguments keywords
  | .type type => makeOf host type arguments keywords
  | f => callPlainly host f arguments keywords

end Action

end TraitFactory
