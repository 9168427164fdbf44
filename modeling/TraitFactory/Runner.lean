import TraitFactory.Compile
import TraitFactory.Lifecycle
import TraitFactory.Object.Equality

/-!
# Runners

Entry points by factory: each compiles the plan of a factory and its call-time traits and
evaluates it under a strategy.
-/

namespace TraitFactory

/-- The arguments of a run. -/
structure RunInput where
  strategy : Value
  factory : Value
  traits : Option Value := none
  overrides : Value := .null
  constructor : Option Value := none
  persistor : Option Value := none
  deriving Repr

namespace Action

def runnerLogger : String := "fixtura.core.runner"

/-! ## Runners and their settings -/

/-- Settings from named values; whatever is not named is the usual. There are no other names. -/
def settingsFrom (entries : List (Value × Value)) : Action RunnerSettings :=
  entries.foldlM (fun s e =>
    match e.1.asText? with
    | some "stub_id_start" => return { s with stubIdStart := e.2 }
    | some "use_parent_strategy" => return { s with useParentStrategy := e.2 }
    | some "cache_plans" => return { s with cachePlans := e.2 }
    | some "log_level" => return { s with logLevel := e.2 }
    | _ => wrongType) default

/-- The first synthetic id, which must be a number. -/
def firstId : Value → Action Value
  | .float n x => return .float n x
  | v =>
    match v.asInt? with
    | some n => return .int n
    | none => wrongType

/-- Makes an evaluator, which calls `associate` for associations. -/
def makeEvaluator (settings : SettingsId) (associate : Value) : Action EvaluatorId := do
  let first ← firstId (← getSettings settings).stubIdStart
  newEvaluator ⟨.settings settings, associate, first⟩

/-- The method by which a runner builds associations. -/
def associationHook : String := "_associate"

/-- **Makes a runner** on a registry, whose cache follows the runner's settings. -/
def newRunner (registry : RegistryId) (settings : RunnerSettings) : Action RunnerId := do
  let s ← newSettings settings
  setCache registry settings.cachePlans
  let r : RunnerId := ⟨(← get).runners.size⟩
  let evaluator ← makeEvaluator s (← newMethod (.runner r) associationHook)
  let w ← get
  set { w with runners := w.runners.push ⟨.registry registry, .settings s, .evaluator evaluator⟩ }
  return r

/-- An evaluator that builds no associations. -/
def newBareEvaluator : Action EvaluatorId := do
  makeEvaluator (← newSettings default) .null

/-- The registry that a runner reads from. -/
def registryOf (r : RunnerId) : Action RegistryId := do
  match (← getRunner r).registry with
  | .registry registry => return registry
  | _ => noAttribute

/-- The evaluator that a runner hands its plans to. -/
def evaluatorOf (r : RunnerId) : Action EvaluatorId := do
  match (← getRunner r).evaluator with
  | .evaluator ev => return ev
  | _ => noAttribute

/-- A setting of a runner. -/
def cacheSetting (r : RunnerId) : Action Value := do
  match (← getRunner r).settings with
  | .settings s => return (← getSettings s).cachePlans
  | _ => noAttribute

/-- The session's own runner. When it is first used its registry's cache follows its settings. -/
def sessionRunner : Action RunnerId := do
  let session := (← get).session
  if !session.runnerInForce then
    setCache (← registryOf session.runner) (← cacheSetting session.runner)
    modify fun w => w.modifySession fun s => { s with runnerInForce := true }
  return session.runner

/-- Puts a new runner in the place of the session's own. -/
def useRunner (r : RunnerId) : Action Unit :=
  modify fun w => w.modifySession fun s => { s with runner := r, runnerInForce := true }

/-- An entry of the log that tells of values, unless they cannot be written. -/
def debugValues (logger : String) (message : Action String) : Action Unit := do
  match ← attempt message with
  | .ok message => debug logger message
  | .error _ => return

/-- Puts a runner with new settings, on the session's first registry, in the place of the
session's own. -/
def configure (settings : RunnerSettings) : Action RunnerId := do
  let r ← newRunner ⟨0⟩ settings
  useRunner r
  let shown := (← getRunner r).settings
  debugValues runnerLogger do return "Configured fixtura: " ++ (← quoted shown)
  return r

/-- Starts the synthetic ids anew. -/
def resetIds (host : Host) (ev : EvaluatorId) : Action Unit := do
  let first ← firstId (← getAttr host (← getEvaluator ev).settings "stub_id_start")
  modify fun w => w.modifyEvaluator ev fun evaluator => { evaluator with nextId := first }

/-- Clears the runner's registry and starts its synthetic ids anew. -/
def resetRunner (host : Host) (r : RunnerId) : Action Unit := do
  resetRegistry (← registryOf r)
  resetIds host (← evaluatorOf r)

/-- Evaluates a plan as a run asks. -/
def evaluateRun (host : Host) (r : RunnerId) (p : PlanId) (input : RunInput) : Action Value := do
  evaluate host (← evaluatorOf r) p input.strategy input.overrides input.constructor
    input.persistor

/-- **One run**: compiles, then evaluates. -/
def run (host : Host) (r : RunnerId) (input : RunInput) : Action Value := do
  let p ← compile (← registryOf r) input.factory input.traits
  evaluateRun host r p input

/-- **The run that an association asks for.** -/
def runAssociated (host : Host) (r : RunnerId) (factory traits overrides strategy : Value) :
    Action Value := do
  debugValues runnerLogger do
    return "Building association " ++ (← plainText factory) ++ " with traits "
      ++ (← quoted traits) ++ " via " ++ (← plainText strategy)
  run host r
    { strategy := strategy, factory := factory, traits := some traits, overrides := overrides }

/-- How many runs a count asks for. What is below zero is refused, and what is no integer
counts nothing. -/
def requireCount (count : Value) : Action Unit := do
  let refuse : Action Unit := do fail (.negativeCount (← plainText count))
  match count.asInt?, count with
  | some n, _ => if n < 0 then refuse
  | none, .float _ x => if x.isBelowZero then refuse
  | none, _ => wrongType

/-- **Several runs** of one plan, compiled once. -/
def runList (host : Host) (r : RunnerId) (count : Value) (input : RunInput) : Action Value := do
  requireCount count
  let p ← compile (← registryOf r) input.factory input.traits
  match count.asInt? with
  | none => wrongType
  | some n =>
    let results ← (List.replicate n.toNat ()).mapM fun _ => evaluateRun host r p input
    alloc (.list results)

/-! ## Methods named for a strategy -/

/-- Takes the entry of a text out of a dictionary. -/
def takeEntry (name : String) (entries : List (Value × Value)) :
    Option Value × List (Value × Value) :=
  let named := fun (e : Value × Value) => e.1.asText? = some name
  ((entries.find? named).map (·.2), entries.filter fun e => !named e)

/-- **Opens the keywords of a strategy's method**, of which the hooks are the first. No keyword
may be given twice. Where only attributes are wanted there are no hooks, so all are
overrides. -/
def methodInput (strategy : Strategy) (input : RunInput) (keywords : List (Value × Value)) :
    Action RunInput := do
  let hooks := (input.constructor.map fun v => (Value.text "constructor", v)).toList
    ++ (input.persistor.map fun v => (Value.text "persistor", v)).toList
  if keywords.any fun k => hooks.any fun h => h.1.asText? = k.1.asText? then wrongType
  let entries := hooks ++ keywords
  let input := { input with strategy := .keyword (.strategy strategy) }
  match strategy with
  | .attributesFor =>
    return { input with
      overrides := ← Parts.dict entries, constructor := none, persistor := none }
  | _ =>
    let (constructor, entries) := takeEntry "constructor" entries
    let (persistor, entries) := takeEntry "persistor" entries
    return { input with
      overrides := ← Parts.dict entries, constructor := constructor, persistor := persistor }

/-- The method that a value names: one for each strategy. -/
def methodStrategy (v : Value) : Action Strategy :=
  match v.asText? with
  | none => wrongType
  | some name =>
    match Strategy.find? name with
    | some s => return s
    | none => noAttribute

end Action

end TraitFactory
