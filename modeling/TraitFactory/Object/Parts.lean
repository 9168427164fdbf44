import TraitFactory.Naming

/-!
# Parts

The named parts of attribute values, plans, definitions, registries and runners, as values. A
part that is a container is made anew each time it is asked for.
-/

namespace TraitFactory

/-- Named parts, each with what makes it, in their order. -/
abbrev Parts := List (String × Action Value)

namespace Parts

def orNull : Option Value → Value := (·.getD .null)

def ofName : Option String → Value
  | some s => .text s
  | none => .null

def tuple (vs : List Value) : Action Value := Action.alloc (.tuple vs)

def list (vs : List Value) : Action Value := Action.alloc (.list vs)

def dict (entries : List (Value × Value)) : Action Value := Action.alloc (.dict entries)

/-- A part whose value is at hand. -/
def given (name : String) (v : Value) : String × Action Value := (name, return v)

/-- What keeps two from changing a thing at once. -/
def lock (owner : Value) : String × Action Value := given "_lock" (.inner "lock" owner "_lock")

/-- A tuple that is made when it is first asked for, and is the same one from then on. -/
def lasting (owner : Value) (name : String) (vs : List Value) : String × Action Value :=
  (name, Action.once owner name (tuple vs))

/-- A part that its owner keeps is handed out as an object, which stands in its place from then
on. -/
def handedOut {α : Type} (s : Slot α) (make : α → Action Value) (keep : Slot α → Action Unit) :
    Action Value := do
  match s with
  | .given v => return v
  | .own x =>
    let v ← make x
    keep (.given v)
    return v

def declarations (ds : List Declaration) : List Value := ds.map fun d => .object d.object

def callbacks (cs : List Callback) : List Value := cs.map fun c => .object c.object

/-! ## Attributes and plans -/

def ofAttribute (owner : Value) : AttributeValue → Parts
  | .fixed v shared =>
    [given "kind" (.text "fixed"), given "value" v, given "shared" (.bool shared)]
  | .computed fn => [given "kind" (.text "computed"), given "fn" fn]
  | .association a =>
    [given "kind" (.text "association"), given "factory" (ofName a.factory),
      lasting owner "traits" (a.traits.map .text), given "overrides" a.overrides,
      given "strategy" (orNull (a.strategy.map fun s => .keyword (.strategy s)))]

def ofDeclaration (d : Declaration) : Parts :=
  [given "name" (.text d.name), given "value" (.object d.valueObject),
    given "origin" (.text d.origin)]

def ofCallback (c : Callback) : Parts :=
  [given "event" (.keyword (.event c.event)), given "fn" c.fn, given "owner" (.text c.owner)]

def ofLayer (owner : Value) (l : Layer) : Parts :=
  [given "kind" (.keyword (.layer l.kind)), given "name" (.text l.name),
    given "scope" (ofName l.scope), lasting owner "attributes" (declarations l.attributes),
    given "constructor" (orNull l.constructor), given "persistor" (orNull l.persistor),
    lasting owner "callbacks" (callbacks l.callbacks)]

def ofPlan (id : PlanId) (s : StoredPlan) : Parts :=
  let p := s.plan
  let owner := Value.plan id
  [given "factory" (.text p.factory), given "model" p.model,
    lasting owner "traits" (p.traits.map .text), lasting owner "layers" (s.layers.map .object),
    lasting owner "attributes" (declarations p.attributes),
    given "constructor" (orNull p.constructor), given "persistor" (orNull p.persistor),
    lasting owner "callbacks" (callbacks p.callbacks)]

/-- The parts that an object goes through when its elements are asked for. -/
def ofObject? (owner : Value) : Object → Option Parts
  | .attr a => some (ofAttribute owner a)
  | .declaration d => some (ofDeclaration d)
  | .callback c => some (ofCallback c)
  | .layer l => some (ofLayer owner l)
  | _ => none

/-! ## Definitions, registries and runners -/

def callbackDict (cs : List Callback) : Action Value := do
  dict (← (callbackTable cs).mapM fun e => do
    return (.keyword (.event e.1), ← list (callbacks e.2)))

def definitionTable (t : Table DefinitionId) : Action Value :=
  dict (t.entries.map fun e => (.text e.1, .definition e.2))

/-- The model that a definition builds, which only a factory has. -/
def buildClass (id : DefinitionId) : Action Value := do
  let ds := (← get).definitions
  if ds.losesModel id then Action.noAttribute else return orNull (ds.model? id)

def modifyDefinition (id : DefinitionId) (f : Definition → Definition) : Action Unit :=
  modify fun w => w.modifyDefinition id f

def ofTemplate (id : DefinitionId) (t : Template) : Parts :=
  [given "parent" t.parent, given "model" t.model,
    ("traits", handedOut t.traits definitionTable fun s =>
      modifyDefinition id fun d => d.modifyTemplate fun t => { t with traits := s }),
    ("build_class", buildClass id)]

def ofDefinition (id : DefinitionId) (d : Definition) : Parts :=
  [given "name" d.nameValue,
    ("attributes", handedOut d.attributes (fun s => Action.alloc (.attributes s)) fun s =>
      modifyDefinition id fun d => { d with attributes := s }),
    ("applied_traits", handedOut d.appliedTraits (fun names => list (names.map .text)) fun s =>
      modifyDefinition id fun d => { d with appliedTraits := s }),
    given "constructor" (orNull d.constructor), given "persistor" (orNull d.persistor),
    ("callbacks", handedOut d.callbacks callbackDict fun s =>
      modifyDefinition id fun d => { d with callbacks := s }),
    given "kind" (.text d.kind), given "label" (.text d.label)]
    ++ (d.template.map (ofTemplate id)).getD []

def modifyRegistry (id : RegistryId) (f : Registry → Registry) : Action Unit :=
  modify fun w => w.modifyRegistry id f

def ofRegistry (id : RegistryId) (r : Registry) : Parts :=
  [("factories", handedOut r.factories definitionTable fun s =>
      modifyRegistry id fun r => { r with factories := s }),
    ("traits", handedOut r.traits definitionTable fun s =>
      modifyRegistry id fun r => { r with traits := s }),
    given "generation" (.int r.generation), lock (.registry id),
    given "resolver" (r.resolver.getD (.resolver id))]

/-- The plans of a cache under the factories and traits that they were compiled for. -/
def planEntries (c : PlanCache) : Action (List (Value × Value)) :=
  c.plans.mapM fun e => do
    let traits ← tuple (e.1.2.map .text)
    return (← tuple [.text e.1.1, traits], .plan e.2)

/-- The layers of a cache under the factories that they belong to. -/
def layerEntries (c : PlanCache) : Action (List (Value × Value)) :=
  c.placed.entries.mapM fun e => do return (.text e.1, ← tuple (e.2.map .object))

def modifyCache (id : RegistryId) (f : PlanCache → PlanCache) : Action Unit :=
  modifyRegistry id fun r => { r with cache := f r.cache }

/-- A dictionary of a cache, which is made when it is first asked for and kept up to date. -/
def cacheDict (handed : Option ObjectId) (entries : Action (List (Value × Value)))
    (keep : ObjectId → Action Unit) : Action Value := do
  match handed with
  | some o => return .object o
  | none =>
    let o ← Action.place (.dict (← entries))
    keep o
    return .object o

def ofResolver (id : RegistryId) (r : Registry) : Parts :=
  let c := r.cache
  [given "registry" (c.registry.getD (.registry id)), given "cache_enabled" c.flag,
    ("_plans", cacheDict c.handedPlans (planEntries c) fun o =>
      modifyCache id fun c => { c with handedPlans := some o }),
    ("_static", cacheDict c.handedLayers (layerEntries c) fun o =>
      modifyCache id fun c => { c with handedLayers := some o }),
    given "_generation" (.int c.generation), lock (.resolver id)]

def ofBuilder (b : Builder) : Parts :=
  [given "definition" b.definition, given "registry" b.registry]

def ofRunner (r : Runner) : Parts :=
  [given "registry" r.registry, given "config" r.settings, given "evaluator" r.evaluator]

def ofEvaluator (id : EvaluatorId) (e : Evaluator) : Parts :=
  [given "config" e.settings, given "associate" e.associate,
    given "_stub_ids" (.inner "count" (.evaluator id) "_stub_ids")]

def ofSettings (s : RunnerSettings) : Parts :=
  [given "stub_id_start" s.stubIdStart, given "use_parent_strategy" s.useParentStrategy,
    given "cache_plans" s.cachePlans, given "log_level" s.logLevel]

/-- The table of an evaluation's declarations, which is the same one from then on. -/
def declarationTable (id : EvaluationId) (e : Evaluation) : Action Value := do
  match e.declarations with
  | some table => return table
  | none =>
    let table ← dict (e.plan.attributes.map fun d => (.text d.name, .object d.object))
    modify fun w => w.modifyEvaluation id fun e => { e with declarations := some table }
    return table

def ofEvaluation (id : EvaluationId) (e : Evaluation) : Parts :=
  [given "plan" (.plan e.planId), given "strategy" e.strategy,
    ("declarations", declarationTable id e),
    given "context" (.context id), given "_associate" e.associate,
    given "_use_parent_strategy" e.useParentStrategy,
    ("_values", handedOut e.values
      (fun t => dict (t.entries.map fun v => (.text v.1, v.2))) fun s =>
      modify fun w => w.modifyEvaluation id fun e => { e with values := s }),
    ("_active", handedOut e.active (fun names => list (names.map .text)) fun s =>
      modify fun w => w.modifyEvaluation id fun e => { e with active := s })]

/-- The parts of a function that can be told apart from its calls. One with bound leading
arguments has them and the function that they are bound to. -/
def ofFunction (id : FunctionId) (f : Function) : Parts :=
  match f.binding with
  | .leading n =>
    let owner := Value.function id
    [("func", Action.once owner "func" (Action.newFunction { f with binding := .free })),
      lasting owner "args" (List.replicate n .null),
      ("keywords", Action.once owner "keywords" (dict []))]
  | .free => [given "__name__" (.text f.name)]
  | .receiver => [given "__name__" (.text f.name), given "__self__" f.receiver]

/-- The parts of a model itself, which are those that all its instances share. -/
def ofModelItself (m : Model) : Parts :=
  [given "__name__" (.text m.name), given "__qualname__" (.text m.name)]
    ++ m.blankFields.map (fun name => given name .null)
    ++ m.descriptors.map (fun name => given name (.inner m.descriptorType (.model m) name))
    ++ m.methods.map fun method => given method.1 (.method 0 (.model m.owner) method.1)

end Parts

end TraitFactory
