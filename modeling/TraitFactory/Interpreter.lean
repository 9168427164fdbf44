import TraitFactory.Hook.Program
import TraitFactory.Operations

/-!
# Interpretation of programs

Answers the requests of programs. A call inside a call runs one level of nesting deeper;
`Host.ofDepth` ties calls, runs and programs together for a given number of levels.
-/

namespace TraitFactory

namespace Action

/-! ## Arguments of commands -/

/-- A registry given by a value, or the session's own. -/
def registryArgument : Option Value → Action RegistryId
  | some (.registry r) => return r
  | some _ => noAttribute
  | none => do registryOf (← get).session.runner

/-- A runner given by a value, or the session's own. -/
def runnerArgument : Option Value → Action RunnerId
  | some (.runner r) => return r
  | some _ => noAttribute
  | none => sessionRunner

def planArgument : Value → Action PlanId
  | .plan p => return p
  | _ => noAttribute

def runInput (a : RunArguments) : RunInput where
  strategy := a.strategy
  factory := a.factory
  traits := a.traits
  overrides := a.overrides.getD .null
  constructor := a.constructor
  persistor := a.persistor

/-- The arguments of a strategy's method: traits are opened first, then the keywords. -/
def methodArguments (a : RunArguments) : Action RunInput := do
  let strategy ← methodStrategy a.strategy
  let traits ← Parts.tuple (← elementsOf a.traits)
  let keywords ← keywordsOf a.overrides
  methodInput strategy { runInput a with traits := some traits } keywords

/-- The evaluator that a command means: that of a runner, or a bare one. -/
def evaluatorArgument (runner : Option Value) (bare : Bool) : Action EvaluatorId := do
  if bare then newBareEvaluator else evaluatorOf (← runnerArgument runner)

/-- **Performs a command.** -/
def performCommand (host : Host) : Command → Action Value
  | .defineFactory registry name model parent traits => do
    defineFactory (← registryArgument registry) name model parent traits
  | .defineTrait registry name => do defineTrait (← registryArgument registry) name
  | .childFactory on name model traits => childFactory on name model traits
  | .localTrait on name => localTrait on name
  | .set on name value computed => setAttribute on name value computed
  | .associate on name factory traits strategy overrides =>
    associate on name factory traits strategy overrides
  | .apply on traits => apply on traits
  | .initializeWith on fn => initializeWith on fn
  | .toCreate on fn => toCreate on fn
  | .callback on event fn => callback on event fn
  | .callbackMethod on event fn => callbackMethod on event fn
  | .newTrait name => newTrait name
  | .newFactory name parent model => newFactory name parent model
  | .registerFactory registry definition => do
    let r ← registryArgument registry
    let d ← definitionOf definition
    registerFactory r d
    return .definition d
  | .registerTrait registry scope name definition => do
    let r ← registryArgument registry
    let d ← definitionOf definition
    registerTrait r scope name d
    return .definition d
  | .resolveTrait registry scope ref => do
    resolveTraitValue (← registryArgument registry) scope ref
  | .factory registry ref => do
    findFactoryValue (← registryArgument registry) ref
  | .definitionOf on => do return .definition (← definitionOf on)
  | .declare definition name value => nothing do declare (← definitionOf definition) name value
  | .applyTrait definition ref => nothing do applyTrait (← definitionOf definition) ref
  | .addCallback definition event fn => do
    return .object (← addCallback (← definitionOf definition) event fn).object
  | .touch registry => nothing do touch (← registryArgument registry)
  | .generation registry => do
    return .int (← getRegistry (← registryArgument registry)).generation
  | .newRegistry => do return .registry (← newRegistry)
  | .resetRegistry registry => nothing do resetRegistry (← registryArgument registry)
  | .resetRunner runner => nothing do resetRunner host (← runnerArgument runner)
  | .invalidate registry => nothing do invalidate (← registryArgument registry)
  | .setCache registry enabled => nothing do
    setCache (← registryArgument registry) enabled
  | .compile registry factory traits => do
    return .plan (← compile (← registryArgument registry) factory traits)
  | .compileWith runner factory traits => do
    return .plan (← compile (← registryOf (← runnerArgument runner)) factory traits)
  | .applyOverrides plan overrides constructor persistor => do
    let p ← planArgument plan
    return .plan (← applyOverrides p (← entriesOf overrides) constructor persistor)
  | .declarationIn plan name => do planDeclaration (← planArgument plan) name
  | .callbacksFor plan event => do planCallbacks (← planArgument plan) event
  | .newRunner registry settings => do
    let r ← registryArgument registry
    let settings ← settingsFrom (← entriesOf settings)
    return .runner (← newRunner r settings)
  | .configure settings => do
    let _ ← configure (← settingsFrom (← entriesOf settings))
    return .bool true
  | .resetStubIds runner => nothing do
    resetIds host (← evaluatorOf (← runnerArgument runner))
  | .run runner arguments => do
    run host (← runnerArgument runner) (runInput arguments)
  | .runMethod runner arguments => do
    run host (← runnerArgument runner) (← methodArguments arguments)
  | .runList runner count arguments => do
    runList host (← runnerArgument runner) count (runInput arguments)
  | .runListMethod runner count arguments => do
    runList host (← runnerArgument runner) count (← methodArguments arguments)
  | .evaluate runner bare plan strategy overrides constructor persistor => do
    let ev ← evaluatorArgument runner bare
    let p ← planArgument plan
    evaluate host ev p strategy (overrides.getD .null) constructor persistor

/-! ## Answers -/

/-- The variable's value; an unset one is a missing key. -/
def valueOf (name : String) : Action Value := do
  match (← get).session.handles.get? name with
  | some v => return v
  | none => fail (.missingKey (Text.quoted name))

/-- The list kept under a key, empty at first. -/
def sharedList (key : String) : Action Value := do
  match (← get).session.sharedLists.get? key with
  | some v => return v
  | none =>
    let v ← alloc (.list [])
    modify fun w => w.modifySession fun s => { s with sharedLists := s.sharedLists.insert key v }
    return v

/-- Counts one more under a key. -/
def count (key : String) : Action Value := do
  let n := ((← get).session.counters.get? key).getD 0 + 1
  modify fun w => w.modifySession fun s => { s with counters := s.counters.insert key n }
  return .int n

def lastFailureText : Action Value := do
  match (← get).session.lastFailure with
  | some e => return .text e.text
  | none => return .null

/-- **Answers a request.** -/
def answer (host : Host) : Request → Action Value
  | .newList items => alloc (.list items)
  | .newTuple items => alloc (.tuple items)
  | .newDict entries => newDict entries
  | .newFloat x => newFloat x
  | .newSymbol payload => do return .symbol (← newSerial) payload
  | .newTextSymbol s => do return .textSymbol (← newSerial) s
  | .newSealed label copyable => alloc (.sealed label copyable ∅)
  | .newFixed value shared => alloc (.attr (.fixed value shared))
  | .newComputed fn => do alloc (.attr (← makeComputed fn))
  | .newAssociation factory traits strategy overrides => do
    alloc (.attr (.association (← makeAssociation factory traits strategy overrides)))
  | .construct m arguments => construct m arguments []
  | .getAttr v name => getAttr host v name
  | .setAttr v name x => nothing (setAttr v name x)
  | .getItem v key => getItem host v key
  | .setItem v key x => nothing (setItem v key x)
  | .contains v key => do return .bool (← contains v key)
  | .length v => do return .int (← length v)
  | .elements v => do alloc (.list (← elements v))
  | .pairs v => pairsOf v
  | .toDict v => toDict host v
  | .equal a b => do return .bool (← equal a b)
  | .isTrue v => do return .bool ((← get).isTrue v)
  | .textOf v => do return .text (← plainText v)
  | .event v => do return .keyword (.event (← eventOf v))
  | .declared v =>
    match v with
    | .builder b => do return (← getBuilder b).definition
    | v => return v
  | .call f arguments keywords =>
    if keywords.isEmpty then host.call f arguments else callWith host f arguments keywords
  | .callSpread f table => do
    callWith host f [] (← entriesAsKeywords (← entriesToSpread host table))
  | .variable name => valueOf name
  | .bind name v => do
    modify fun w => w.modifySession fun s => { s with handles := s.handles.insert name v }
    return v
  | .sharedList key => sharedList key
  | .count key => count key
  | .announce v => do
    announce [.text "trace", (← get).view v]
    return v
  | .remember e => nothing do
    modify fun w => w.modifySession fun s => { s with lastFailure := some e }
  | .lastFailure => lastFailureText
  | .command c => performCommand host c

end Action

/-- Makes a function, with a receiver of its own if it is bound to one. -/
def Action.makeFunction (head : FunctionHead) (body : List Value → Program) : Action Value := do
  let receiver ← match head.binding with
    | .receiver => Action.alloc (.sealed "self" true ∅)
    | _ => pure .null
  Action.newFunction { toFunctionHead := head, body := body, receiver := receiver }

/-- **Runs a program** to its end. -/
def Program.run (host : Host) : Program → Action Value
  | .done v => return v
  | .fail e => throw e
  | .ask r k => do
    let outcome ← Action.attempt (Action.answer host r)
    (k outcome).run host
  | .define head body k => do
    let f ← Action.makeFunction head body
    (k f).run host

namespace Action

/-- The arguments a function's body sees: those bound before the call, those of the call, and
nothing for each default that was left out. `none` when the call does not fit. -/
def boundArguments (f : Function) (arguments : List Value) : Option (List Value) :=
  let bound := match f.binding with
    | .free => arguments
    | .leading n => List.replicate n .null ++ arguments
    | .receiver => f.receiver :: arguments
  if f.signature.accepts bound.length then
    some (bound ++ List.replicate (f.signature.positionals - bound.length) .null)
  else none

/-- **Calls a function**, announcing the call unless the function is quiet. -/
def callFunction (host : Host) (f : Function) (arguments : List Value) : Action Value := do
  match boundArguments f arguments with
  | none => wrongType
  | some seen =>
    if !f.quiet then announce [.text "call", .text f.name, .int seen.length]
    (f.body seen).run host

/-- **Calls a value**: a function, a model or a method. -/
def callValue (host : Host) (f : Value) (arguments : List Value) : Action Value := do
  match f with
  | .model m => construct m arguments []
  | .enumeration member =>
    match arguments with
    | [x] => memberOf member x
    | _ => wrongType
  | .method _ receiver name => callMethod host receiver name arguments []
  | .type type => makeOf host type arguments []
  | .function id =>
    match (← get).function? id with
    | some f => callFunction host f arguments
    | none => wrongType
  | _ => wrongType

end Action

/-- **The host for a given number of levels of nesting.** -/
def Host.ofDepth : Nat → Host
  | 0 => Host.exhausted
  | depth + 1 =>
    ⟨Action.callValue (Host.ofDepth depth)⟩

/-- How deeply calls may be nested. -/
def Host.maxDepth : Nat := 3000

/-- The host that sessions run under. -/
def Host.standard : Host := Host.ofDepth Host.maxDepth

end TraitFactory
