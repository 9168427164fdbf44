import TraitFactory.Hook.Program
import TraitFactory.Log.Level
import TraitFactory.Plan
import TraitFactory.View

/-!
# Worlds

The whole state that steps, runs and hooks share: objects, functions, definitions, registries
with their plan caches, runners, evaluations, and what has been announced and logged so far.
-/

namespace TraitFactory

/-- **The attributes handed to a constructor.** `table` is the dictionary of the attributes, and
`read` the set of the names that it has read so far. `extras` are names set on the snapshot
itself. -/
structure Snapshot where
  table : Value
  model : Value
  read : Value
  extras : Table Value := ∅
  deriving DecidableEq, Repr

/-- **What goes through something** from its start or from its end: how many elements have been
taken, and how many there were at the start. -/
structure Iteration where
  type : String
  source : Value
  backwards : Bool := false
  size : Nat
  taken : Nat := 0
  finished : Bool := false
  deriving DecidableEq, Repr

/-- **An object with an identity of its own.** -/
inductive Object where
  | list (items : List Value)
  | tuple (items : List Value)
  | dict (entries : List (Value × Value))
  | set (members : List Value)
  | record (model : Model) (fields : Table Value)
  /-- An object that shows nothing but its label; some cannot be copied. -/
  | sealed (label : String) (copyable : Bool) (fields : Table Value)
  | attr (value : AttributeValue)
  | declaration (d : Declaration)
  | callback (c : Callback)
  | layer (l : Layer)
  | attributes (s : AttributeSet)
  | snapshot (s : Snapshot)
  | iteration (i : Iteration)
  deriving DecidableEq, Repr

instance : Inhabited Object := ⟨.list []⟩

/-- Objects in the order they were made. `serials` is the serial number of the next value that
takes one; the constants that all values share have the number zero. -/
structure Heap where
  objects : Array Object := #[]
  serials : Nat := 1
  deriving DecidableEq, Repr

namespace Heap

instance : Inhabited Heap := ⟨{}⟩

def get? (h : Heap) (o : ObjectId) : Option Object := h.objects[o.index]?

def size (h : Heap) : Nat := h.objects.size

def alloc (h : Heap) (o : Object) : ObjectId × Heap :=
  (⟨h.objects.size⟩, { h with objects := h.objects.push o })

def set (h : Heap) (o : ObjectId) (x : Object) : Heap :=
  { h with objects := h.objects.setIfInBounds o.index x }

/-- The object a value refers to, if it refers to one. -/
def object? (h : Heap) : Value → Option Object
  | .object o => h.get? o
  | _ => none

/-- The attribute value that a value is, if it is one. -/
def attribute? (h : Heap) (v : Value) : Option AttributeValue :=
  match h.object? v with
  | some (.attr a) => some a
  | _ => none

/-- The declaration that a value is, if it is one. -/
def declaration? (h : Heap) (v : Value) : Option Declaration :=
  match h.object? v with
  | some (.declaration d) => some d
  | _ => none

end Heap

/-- A plan with the objects that its layers are. -/
structure StoredPlan where
  plan : Plan
  layers : List ObjectId
  deriving DecidableEq, Repr

/-- A plan is cached under the factory's name and the call-time traits. -/
abbrev PlanKey := String × List String

/-- **Cached plans of one registry.** `shared` holds, by factory name, the layers that do not
depend on call-time traits, and `placed` the objects that they are; `generation` is the
registry's generation they belong to. What was handed out is kept in a dictionary as well. The
flag is what `enabled` was last set by. Definitions are looked up in the registry itself, unless
another one was put in its place. -/
structure PlanCache where
  enabled : Bool := true
  flag : Value := .bool true
  plans : List (PlanKey × PlanId) := []
  shared : Table (List Layer) := ∅
  placed : Table (List ObjectId) := ∅
  generation : Int := 0
  handedPlans : Option ObjectId := none
  handedLayers : Option ObjectId := none
  registry : Option Value := none
  deriving DecidableEq, Repr

/-- **Symbol table** of factories and global traits. Every change raises the generation. Plans are
compiled through its own cache, unless another resolver was put in its place. -/
structure Registry where
  factories : Slot (Table DefinitionId) := .own ∅
  traits : Slot (Table DefinitionId) := .own ∅
  generation : Int := 0
  cache : PlanCache := {}
  resolver : Option Value := none
  deriving DecidableEq, Repr

instance : Inhabited Registry := ⟨{}⟩

/-- **What declares on a definition** in a registry. One for a factory declares traits and further
factories as well. -/
structure Builder where
  definition : Value
  registry : Value
  forFactory : Bool
  deriving DecidableEq, Repr

/-- **Settings as a runner holds them.** Nobody checks them: flags are whatever counts as true
or not, and only the start of the synthetic ids must be a number. -/
structure RunnerSettings where
  stubIdStart : Value
  useParentStrategy : Value
  cachePlans : Value
  logLevel : Value
  deriving DecidableEq, Repr

def RunnerSettings.ofSettings (s : Settings) : RunnerSettings where
  stubIdStart := .int s.stubIdStart
  useParentStrategy := .bool s.useParentStrategy
  cachePlans := .bool s.cachePlans
  logLevel := .text s.logLevel

instance : Inhabited RunnerSettings := ⟨.ofSettings {}⟩

/-- **What evaluates plans**: its settings, what it calls for associations if anything, and the
next synthetic id, which is a number. -/
structure Evaluator where
  settings : Value
  associate : Value
  nextId : Value
  deriving DecidableEq, Repr

instance : Inhabited Evaluator := ⟨⟨.null, .null, .int 0⟩⟩

/-- **A runner** compiles in a registry and hands plans to its evaluator. -/
structure Runner where
  registry : Value
  settings : Value
  evaluator : Value
  deriving DecidableEq, Repr

instance : Inhabited Runner := ⟨⟨.null, .null, .null⟩⟩

/-- **State of one evaluation**: what has been computed and what is being computed, the
outermost attribute first. The strategy is the one that associations follow, if they do. Its
declarations are those of the plan until a table of them has been handed out. `extras` are names
set on its context from outside. -/
structure Evaluation where
  planId : PlanId
  plan : Plan
  strategy : Value
  associate : Value
  useParentStrategy : Value
  values : Slot (Table Value) := .own ∅
  active : Slot (List String) := .own []
  declarations : Option Value := none
  extras : Table Value := ∅
  deriving DecidableEq, Repr

/-- **Variables of a session**: named results, counters, shared lists, and the failure that was
recovered from last. `runner` is the runner meant where none is named; it comes into force when
it is first used, unless it is in force already. -/
structure Session where
  handles : Table Value := ∅
  counters : Table Nat := ∅
  sharedLists : Table Value := ∅
  lastFailure : Option Failure := none
  runner : RunnerId := ⟨0⟩
  runnerInForce : Bool := true
  deriving DecidableEq, Repr

/-- **The state that steps, runs and hooks share.** `extras` are the names that were set on
values whose own parts are kept elsewhere, and `made` the parts of such values that were made
when they were first asked for. -/
structure World where
  heap : Heap := {}
  extras : List (Value × Table Value) := []
  made : List (Value × Table Value) := []
  functions : Array Function := #[]
  definitions : Definitions := ∅
  plans : Array StoredPlan := #[]
  registries : Array Registry := #[]
  builders : Array Builder := #[]
  settings : Array RunnerSettings := #[]
  evaluators : Array Evaluator := #[]
  runners : Array Runner := #[]
  evaluations : Array Evaluation := #[]
  session : Session := {}
  trace : Array View := #[]
  log : Array LogEntry := #[]

instance : Inhabited World := ⟨{}⟩

/-- **State changes that may fail.** What was changed before a failure stays changed. -/
abbrev Action := ExceptT Failure (StateM World)

namespace World

def function? (w : World) (f : FunctionId) : Option Function := w.functions[f.index]?

def stored? (w : World) (p : PlanId) : Option StoredPlan := w.plans[p.index]?

def plan? (w : World) (p : PlanId) : Option Plan := (w.stored? p).map (·.plan)

def builder? (w : World) (b : BuilderId) : Option Builder := w.builders[b.index]?

/-- The definition that a builder declares on. -/
def built? (w : World) (b : BuilderId) : Option DefinitionId :=
  match w.builder? b with
  | some ⟨.definition d, _, _⟩ => some d
  | _ => none

/-- Whether a builder declares on a factory. -/
def buildsFactory (w : World) (b : BuilderId) : Bool := (w.builder? b).any (·.forFactory)

def settingsAt? (w : World) (s : SettingsId) : Option RunnerSettings := w.settings[s.index]?

def evaluator? (w : World) (e : EvaluatorId) : Option Evaluator := w.evaluators[e.index]?

def registryAt? (w : World) (r : RegistryId) : Option Registry := w.registries[r.index]?

def runner? (w : World) (r : RunnerId) : Option Runner := w.runners[r.index]?

def evaluation? (w : World) (e : EvaluationId) : Option Evaluation := w.evaluations[e.index]?

def modifyRegistry (w : World) (r : RegistryId) (f : Registry → Registry) : World :=
  { w with registries := w.registries.modify r.index f }

def modifyRunner (w : World) (r : RunnerId) (f : Runner → Runner) : World :=
  { w with runners := w.runners.modify r.index f }

def modifyBuilder (w : World) (b : BuilderId) (f : Builder → Builder) : World :=
  { w with builders := w.builders.modify b.index f }

def modifySettings (w : World) (s : SettingsId) (f : RunnerSettings → RunnerSettings) : World :=
  { w with settings := w.settings.modify s.index f }

def modifyEvaluator (w : World) (e : EvaluatorId) (f : Evaluator → Evaluator) : World :=
  { w with evaluators := w.evaluators.modify e.index f }

def modifyEvaluation (w : World) (e : EvaluationId) (f : Evaluation → Evaluation) : World :=
  { w with evaluations := w.evaluations.modify e.index f }

def modifyDefinition (w : World) (d : DefinitionId) (f : Definition → Definition) : World :=
  { w with definitions := w.definitions.modify d f }

def modifySession (w : World) (f : Session → Session) : World := { w with session := f w.session }

/-- The names that were set on a value. -/
def extrasOf (w : World) (v : Value) : Table Value := (w.extras.lookup v).getD ∅

/-- Sets a name on a value whose parts are kept elsewhere. -/
def setExtra (w : World) (v : Value) (name : String) (x : Value) : World :=
  { w with extras := (v, (w.extrasOf v).insert name x) :: w.extras.filter (·.1 ≠ v) }

/-- Takes away a name that was set on a value. -/
def eraseExtra (w : World) (v : Value) (name : String) : World :=
  { w with extras := (v, (w.extrasOf v).erase name) :: w.extras.filter (·.1 ≠ v) }

/-- A part of a value that was made before. -/
def madePart? (w : World) (v : Value) (name : String) : Option Value :=
  (w.made.lookup v).bind (·.get? name)

def keepPart (w : World) (v : Value) (name : String) (x : Value) : World :=
  let parts := (w.made.lookup v).getD ∅
  { w with made := (v, parts.insert name x) :: w.made.filter (·.1 ≠ v) }

/-- The entries of a dictionary, which may be that of an instance's fields or of the declarations
of a set. -/
def entries? (w : World) : Value → Option (List (Value × Value))
  | .object o =>
    match w.heap.get? o with
    | some (.dict entries) => some entries
    | _ => none
  | .fields o =>
    match w.heap.get? o with
    | some (.record _ fields) => some (fields.entries.map fun f => (.text f.1, f.2))
    | some (.attributes s) => some (s.table.entries.map fun d => (.text d.1, .object d.2.object))
    | _ => none
  | _ => none

/-- The items of a tuple. -/
def tuple? (w : World) (v : Value) : Option (List Value) :=
  match w.heap.object? v with
  | some (.tuple items) => some items
  | _ => none

def setObject (w : World) (o : ObjectId) (x : Object) : World := { w with heap := w.heap.set o x }

end World

namespace Action

/-- Runs an action in a world. -/
def execute {α : Type} (a : Action α) (w : World) : Except Failure α × World :=
  StateT.run (ExceptT.run a) w

def fail {α : Type} (cause : Cause) : Action α := throw (Failure.raise cause)

/-- Gives a result, or fails for its cause. -/
def ofCause {α : Type} : Except Cause α → Action α
  | .ok x => return x
  | .error cause => fail cause

def failInFactory {α : Type} (cause : Cause) (factory : String) : Action α :=
  throw (Failure.inFactory cause factory)

/-- A value that has no such shape, with no wording of this library's own. -/
def wrongType {α : Type} : Action α := fail (.wrongType none)

def noAttribute {α : Type} : Action α := fail (.noAttribute none)

/-- Gives the outcome of an action, whichever it is. -/
def attempt {α : Type} (a : Action α) : Action (Except Failure α) :=
  tryCatch (.ok <$> a) fun e => pure (.error e)

/-- Passes a failure on after a note has been added to it. -/
def noting {α : Type} (note : String) (a : Action α) : Action α :=
  tryCatch a fun e => throw (e.addNote note)

def alloc (o : Object) : Action Value := do
  let w ← get
  let (o, heap) := w.heap.alloc o
  set { w with heap := heap }
  return .object o

/-- The serial number of a new value. -/
def newSerial : Action Nat := do
  let w ← get
  set { w with heap := { w.heap with serials := w.heap.serials + 1 } }
  return w.heap.serials

def newFloat (x : Double) : Action Value := return .float (← newSerial) x

def newRegistry : Action RegistryId := do
  let w ← get
  set { w with registries := w.registries.push {} }
  return ⟨w.registries.size⟩

def newFunction (f : Function) : Action Value := do
  let w ← get
  set { w with functions := w.functions.push f }
  return .function ⟨w.functions.size⟩

def newDefinition (d : Definition) : Action DefinitionId := do
  let w ← get
  set { w with definitions := w.definitions.push d }
  return w.definitions.next

def newPlan (p : StoredPlan) : Action PlanId := do
  let w ← get
  set { w with plans := w.plans.push p }
  return ⟨w.plans.size⟩

def newBuilder (b : Builder) : Action Value := do
  let w ← get
  set { w with builders := w.builders.push b }
  return .builder ⟨w.builders.size⟩

def newSettings (s : RunnerSettings) : Action SettingsId := do
  let w ← get
  set { w with settings := w.settings.push s }
  return ⟨w.settings.size⟩

def newEvaluator (e : Evaluator) : Action EvaluatorId := do
  let w ← get
  set { w with evaluators := w.evaluators.push e }
  return ⟨w.evaluators.size⟩

def newMethod (receiver : Value) (name : String) : Action Value :=
  match receiver with
  | .type _ => return .method 0 receiver name
  | receiver => return .method (← newSerial) receiver name

/-- Allocates an object and gives its place. -/
def place (o : Object) : Action ObjectId := do
  let w ← get
  let (o, heap) := w.heap.alloc o
  set { w with heap := heap }
  return o

/-- Makes the declaration of an attribute whose value is an object already. -/
def newDeclaration (name : String) (value : AttributeValue) (valueObject : ObjectId)
    (origin : String) : Action Declaration := do
  let d : Declaration := ⟨name, value, origin, ⟨(← get).heap.size⟩, valueObject⟩
  let _ ← place (.declaration d)
  return d

def newCallback (event : Event) (fn : Value) (owner : String) : Action Callback := do
  let c : Callback := ⟨event, fn, owner, ⟨(← get).heap.size⟩⟩
  let _ ← place (.callback c)
  return c

/-- A part that is made when it is first asked for. -/
def once (v : Value) (name : String) (make : Action Value) : Action Value := do
  match (← get).madePart? v name with
  | some x => return x
  | none =>
    let x ← make
    modify fun w => w.keepPart v name x
    return x

def log (level : LogLevel) (logger message : String) : Action Unit :=
  modify fun w => { w with log := w.log.push ⟨level, logger, message⟩ }

def debug (logger message : String) : Action Unit := log .debug logger message

def getRegistry (r : RegistryId) : Action Registry := do
  match (← get).registryAt? r with
  | some registry => return registry
  | none => wrongType

def getRunner (r : RunnerId) : Action Runner := do
  match (← get).runner? r with
  | some runner => return runner
  | none => wrongType

def getBuilder (b : BuilderId) : Action Builder := do
  match (← get).builder? b with
  | some builder => return builder
  | none => wrongType

def getSettings (s : SettingsId) : Action RunnerSettings := do
  match (← get).settingsAt? s with
  | some settings => return settings
  | none => wrongType

def getEvaluator (e : EvaluatorId) : Action Evaluator := do
  match (← get).evaluator? e with
  | some evaluator => return evaluator
  | none => wrongType

def getStored (p : PlanId) : Action StoredPlan := do
  match (← get).stored? p with
  | some stored => return stored
  | none => wrongType

def getPlan (p : PlanId) : Action Plan := do
  match (← get).plan? p with
  | some plan => return plan
  | none => wrongType

def getEvaluation (e : EvaluationId) : Action Evaluation := do
  match (← get).evaluation? e with
  | some evaluation => return evaluation
  | none => wrongType

def getDefinition (d : DefinitionId) : Action Definition := do
  match (← get).definitions.get? d with
  | some definition => return definition
  | none => wrongType

end Action

end TraitFactory
