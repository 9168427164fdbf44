import TraitFactory.Object.Construct
import TraitFactory.Object.Items
import TraitFactory.Overrides

/-!
# Lifecycle

Runs a plan under a strategy. All attributes are resolved first. Then the instance is
constructed, the attributes that the constructor did not read are assigned, and the stages of
the strategy follow in their order.
-/

namespace TraitFactory

namespace Action

def evaluatorLogger : String := "fixtura.core.evaluator"

/-- The strategy a value stands for. -/
def strategyOf (v : Value) : Action Strategy := do
  match v.asText?.bind Strategy.find? with
  | some s => return s
  | none => fail (.notAStrategy (← quoted v))

/-- An instance of a model, which may be nothing or anything that can be called. -/
def instanceOf (host : Host) : Value → Action Value
  | .null => construct Model.namespaceModel [] []
  | .model m => construct m [] []
  | f => host.call f []

/-- What a constructor has read of the snapshot it was handed, as it is kept there. -/
def readOf (snapshot : Value) : Action Value := do
  match ← snapshot? snapshot with
  | some s => return s.read
  | none => return .null

/-- **Constructs the instance.** The plan's constructor is handed a snapshot of the attributes,
which are a dictionary; without one the model is instantiated with no arguments. Gives the
instance and what was read. -/
def constructInstance (host : Host) (plan : Plan) (attributes : Value) :
    Action (Value × Value) := do
  let read ← alloc (.set [])
  match plan.constructor with
  | none => return (← instanceOf host plan.model, read)
  | some fn =>
    let snapshot ← alloc (.snapshot { table := attributes, model := plan.model, read := read })
    let made ← noting s!"while running the constructor of factory '{plan.factory}'"
      (host.call fn [snapshot])
    return (made, ← readOf snapshot)

/-- Assigns an attribute unless it was read. -/
def assign (v read : Value) (entry : Value × Value) : Action Unit := do
  if ← contains read entry.1 then return
  match entry.1.asText? with
  | some name => setAttr v name entry.2
  | none => wrongType

/-- Assigns the attributes that were not read, in plan order. -/
def assignUnread (v attributes read : Value) : Action Unit := do
  (← entriesOf (some attributes)).forM (assign v read)

/-- **The instance of a plan** with its attributes assigned. -/
def constructWith (host : Host) (plan : Plan) (attributes : Value) : Action Value := do
  let (v, read) ← constructInstance host plan attributes
  assignUnread v attributes read
  return v

/-- Persists by the plan's persistor, or else by the instance's own `save`. -/
def persist (host : Host) (plan : Plan) (v : Value) : Action Unit := do
  match plan.persistor with
  | some fn =>
    let _ ← noting s!"while running the persistor of factory '{plan.factory}'" (host.call fn [v])
  | none =>
    let save ← getAttrOr host v "save" .null
    if save = .null then
      failInFactory (.noSaveMethod ((← get).typeName v)) plan.factory
    let _ ← host.call save []

/-- The methods that a stand-in may not use. -/
def persistenceMethods : List String := ["save", "delete", "refresh", "reload"]

/-- A function that refuses whatever it is called with. -/
def refusal (type method : String) : Function where
  name := "raiser"
  signature := [.variadic, .keywords]
  quiet := true
  body := fun _ => .raise (.stubbedMethod type method)

/-- The synthetic id after another. -/
def idAfter : Value → Action Value
  | .float _ x => newFloat (x.add Double.one)
  | .int n => return .int (n + 1)
  | v => return v

/-- The next synthetic id of an evaluator, which is never handed out again before a reset. -/
def drawId (ev : EvaluatorId) : Action Value := do
  let id := (← getEvaluator ev).nextId
  let next ← idAfter id
  modify fun w => w.modifyEvaluator ev fun evaluator => { evaluator with nextId := next }
  return id

/-- Replaces a method the instance has by one that refuses. -/
def disable (host : Host) (v : Value) (method : String) : Action Unit := do
  if ← hasAttr host v method then
    setAttr v method (← newFunction (refusal ((← get).typeName v) method))

/-- **Makes a stand-in** of an instance: it gets a synthetic id, unless an attribute is named
so, and cannot be persisted. -/
def stub (host : Host) (ev : EvaluatorId) (v attributes : Value) : Action Unit := do
  if !(← contains attributes (.text "id")) then setAttr v "id" (← drawId ev)
  persistenceMethods.forM (disable host v)

/-- A callback is given the context besides the instance when it takes two arguments. -/
def invoke (host : Host) (fn v context : Value) : Action Value := do
  if 2 ≤ (← get).arity fn then host.call fn [v, context] else host.call fn [v]

def fire (host : Host) (plan : Plan) (event : Event) (v context : Value) : Action Unit :=
  (plan.callbacksFor event).forM fun c => do
    let _ ← noting s!"while running {event.name} callback from {c.owner}"
      (invoke host c.fn v context)

/-- One stage after construction. -/
def perform (host : Host) (e : EvaluationId) (ev : EvaluatorId) (plan : Plan)
    (attributes v : Value) : Stage → Action Unit
  | .stub => stub host ev v attributes
  | .fire event => fire host plan event v (.context e)
  | .persist => persist host plan v

/-- Whether associations without a strategy of their own follow their surroundings, as the
settings say. -/
def followsParent (host : Host) (settings : Value) : Action Value := do
  match settings with
  | .settings s => return (← getSettings s).useParentStrategy
  | v => getAttr host v "use_parent_strategy"

/-- The evaluation of a plan under a strategy. -/
def beginEvaluation (host : Host) (ev : EvaluatorId) (p : PlanId) (strategy : Strategy) :
    Action EvaluationId := do
  let evaluator ← getEvaluator ev
  newEvaluation
    { planId := p
      plan := ← getPlan p
      strategy := .keyword (.strategy strategy)
      associate := evaluator.associate
      useParentStrategy := ← followsParent host evaluator.settings }

/-- **Runs a plan** whose overrides are already in place. -/
def runPlan (host : Host) (ev : EvaluatorId) (p : PlanId) (strategy : Strategy) :
    Action Value := do
  let plan ← getPlan p
  let e ← beginEvaluation host ev p strategy
  debug evaluatorLogger
    ("Running " ++ strategy.name ++ " for factory " ++ plan.factory ++ " with traits "
      ++ View.tupleText (plan.traits.map Text.quoted))
  let values ← resolve host e
  let attributes ← Parts.dict (values.entries.map fun a => (.text a.1, a.2))
  if strategy = .attributesFor then return attributes
  else
    let v ← constructWith host plan attributes
    strategy.stages.forM (perform host e ev plan attributes v)
    return v

/-- The entries of overrides. What counts as false has none. -/
def overrideEntries (host : Host) (overrides : Value) : Action (List (Value × Value)) := do
  let w ← get
  match w.isTrue overrides, w.entries? overrides with
  | false, _ => return []
  | true, some entries => return entries
  | true, none => do
    (← walk (← host.call (← getAttr host overrides "items") [])).mapM fun read => do
      bothParts (← read)

/-- **Evaluates a plan** under a strategy, overrides and hooks. -/
def evaluate (host : Host) (ev : EvaluatorId) (p : PlanId) (strategy overrides : Value)
    (constructor persistor : Option Value) : Action Value := do
  let s ← strategyOf strategy
  let p ← applyOverrides p (← overrideEntries host overrides) constructor persistor
  runPlan host ev p s

end Action

end TraitFactory
