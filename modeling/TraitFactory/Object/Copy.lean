import TraitFactory.World.Unfold

/-!
# Deep copies

A deep copy shares nothing that can change with the value it is made of, and two references to
one thing inside that value become two references to one copy. Plain functions, models and
scalars are their own copies, and a tuple whose parts are all their own copies is too. What
belongs to a registry cannot be copied, which shows once its definitions have been gone through.
-/

namespace TraitFactory

/-- **A copy under way**: the world so far, and the copies already begun, each with what it
copies. -/
structure Copying where
  world : World
  copies : List (Value × Value) := []

abbrev CopyM := ExceptT Failure (StateM Copying)

namespace CopyM

def fail {α : Type} (message : Option String) : CopyM α :=
  throw (Failure.raise (.wrongType message))

def world : CopyM World := do return (← get).world

def remember (v copy : Value) : CopyM Unit :=
  modify fun s => { s with copies := (v, copy) :: s.copies }

/-- Performs an action within the copy's world. -/
def perform {α : Type} (a : Action α) : CopyM α := do
  let s ← get
  let (result, w) := a.execute s.world
  set { s with world := w }
  match result with
  | .ok x => return x
  | .error e => throw e

/-- Makes the copy of a value and remembers it, so that its parts can refer to it. -/
def begin (v : Value) (a : Action Value) : CopyM Value := do
  let copy ← perform a
  remember v copy
  return copy

def put (copy : Value) (x : Object) : CopyM Unit := do
  match copy with
  | .object o => perform (modify fun w => w.setObject o x)
  | _ => return

end CopyM

open CopyM

section Parts

variable (copy : Value → CopyM Value)

def copyEntries (es : List (String × Value)) : CopyM (List (String × Value)) :=
  es.mapM fun e => return (e.1, ← copy e.2)

def copyTable (t : Table Value) : CopyM (Table Value) := return ⟨← copyEntries copy t.entries⟩

def copyOptional (v : Option Value) : CopyM (Option Value) := v.mapM copy

def copyAttribute : AttributeValue → CopyM AttributeValue
  | .fixed value shared => return .fixed (← copy value) shared
  | .computed fn => return .computed (← copy fn)
  | .association a => return .association { a with overrides := ← copy a.overrides }

/-- The place of the copy of an object. -/
def copyPlace (o : ObjectId) : CopyM ObjectId := do
  match ← copy (.object o) with
  | .object o => return o
  | _ => return o

/-- The copy of a declaration, which is an object like its value. -/
def copyDeclaration (d : Declaration) : CopyM Declaration := do
  match (← get).world.heap.get? (← copyPlace copy d.object) with
  | some (.declaration d) => return d
  | _ => return d

def copyCallback (c : Callback) : CopyM Callback := do
  match (← get).world.heap.get? (← copyPlace copy c.object) with
  | some (.callback c) => return c
  | _ => return c

def copyLayer (l : Layer) : CopyM Layer := do
  let attributes ← l.attributes.mapM (copyDeclaration copy)
  let constructor ← copyOptional copy l.constructor
  let persistor ← copyOptional copy l.persistor
  let callbacks ← l.callbacks.mapM (copyCallback copy)
  return { l with attributes, constructor, persistor, callbacks }

/-- Copies a plan. The objects that its layers are get copies as well. -/
def copyPlan (s : StoredPlan) : CopyM StoredPlan := do
  let p := s.plan
  let places ← s.layers.mapM (copyPlace copy)
  let heap := (← get).world.heap
  let layers := (p.layers.zip places).map fun l =>
    match heap.get? l.2 with
    | some (.layer copied) => copied
    | _ => l.1
  let attributes ← p.attributes.mapM (copyDeclaration copy)
  let constructor ← copyOptional copy p.constructor
  let persistor ← copyOptional copy p.persistor
  let callbacks ← p.callbacks.mapM (copyCallback copy)
  let model ← copy p.model
  return ⟨{ p with model, layers, attributes, constructor, persistor, callbacks }, places⟩

/-- Copies an object that is not yet being copied. -/
def copyObject (v : Value) : Object → CopyM Value
  | .list items => do
    let v' ← begin v (Action.alloc (.list []))
    put v' (.list (← items.mapM copy))
    return v'
  | .dict entries => do
    let v' ← begin v (Action.alloc (.dict []))
    let entries ← entries.mapM fun e => do
      let x ← copy e.2
      return (← copy e.1, x)
    put v' (.dict entries)
    return v'
  | .record m fields => do
    let v' ← begin v (Action.alloc (.record m ∅))
    put v' (.record m (← copyTable copy fields))
    return v'
  | .tuple items => do
    let items' ← items.mapM copy
    match (← get).copies.lookup v with
    | some v' => return v'
    | none => if items' = items then return v else begin v (Action.alloc (.tuple items'))
  | .sealed label copyable fields => do
    if copyable then
      let v' ← begin v (Action.alloc (.sealed label copyable ∅))
      put v' (.sealed label copyable (← copyTable copy fields))
      return v'
    else CopyM.fail (some s!"cannot copy {label}")
  | .attr a => do
    let a' ← copyAttribute copy a
    begin v (Action.alloc (.attr a'))
  | .declaration d => do
    let valueObject ← copyPlace copy d.valueObject
    let value := match (← get).world.heap.get? valueObject with
      | some (.attr value) => value
      | _ => d.value
    begin v do
      return .object (← Action.newDeclaration d.name value valueObject d.origin).object
  | .callback c => do
    let fn ← copy c.fn
    begin v do return .object (← Action.newCallback c.event fn c.owner).object
  | .set members => do
    let v' ← begin v (Action.alloc (.set []))
    put v' (.set (← members.mapM copy))
    return v'
  | .attributes s => do
    let v' ← begin v (Action.alloc (.attributes ∅))
    put v' (.attributes (AttributeSet.ofList (← s.declarations.mapM (copyDeclaration copy))))
    return v'
  | .layer l => do
    let l' ← copyLayer copy l
    begin v (Action.alloc (.layer l'))
  | .snapshot s => do
    let v' ← begin v (Action.alloc (.snapshot s))
    let table ← copy s.table
    let model ← copy s.model
    let read ← copy s.read
    let extras ← copyTable copy s.extras
    put v' (.snapshot { table, model, read, extras })
    return v'
  | .iteration i => do
    if i.type = "generator" then CopyM.fail none
    else
      let source ← copy i.source
      begin v (Action.alloc (.iteration { i with source }))

/-- Copies the names that were set on a value. -/
def copyExtras (v v' : Value) : CopyM Unit := do
  for e in ((← world).extrasOf v).entries do
    let x ← copy e.2
    perform (modify fun w => w.setExtra v' e.1 x)

/-- A plain function is its own copy; what it is bound to is copied. -/
def copyFunction (v : Value) (f : Function) : CopyM Value :=
  match f.binding with
  | .free => return v
  | .leading _ => do
    let v' ← begin v (Action.newFunction f)
    copyExtras copy v v'
    return v'
  | .receiver => do
    let receiver ← copy f.receiver
    begin v (Action.newFunction { f with receiver := receiver })

/-- Copies what an owner keeps, or what stands in its place. -/
def copySlot {α : Type} (copyOwn : α → CopyM α) : Slot α → CopyM (Slot α)
  | .own x => return .own (← copyOwn x)
  | .given v => return .given (← copy v)

def copyDefinitionTable (t : Table DefinitionId) : CopyM (Table DefinitionId) := do
  return ⟨← t.entries.mapM fun e => do
    match ← copy (.definition e.2) with
    | .definition d => return (e.1, d)
    | _ => return e⟩

/-- Copies a definition with its parents and its local traits. -/
def copyDefinition (v : Value) (d : Definition) : CopyM Value := do
  let id ← perform (Action.newDefinition d)
  remember v (.definition id)
  let set := fun (f : Definition → Definition) =>
    perform (modify fun w => w.modifyDefinition id f)
  let attributes ← copySlot copy (fun s =>
    return AttributeSet.ofList (← s.declarations.mapM (copyDeclaration copy))) d.attributes
  let appliedTraits ← copySlot copy (fun names => return names) d.appliedTraits
  let constructor ← copyOptional copy d.constructor
  let persistor ← copyOptional copy d.persistor
  let callbacks ← copySlot copy (fun cs => cs.mapM (copyCallback copy)) d.callbacks
  set fun d => { d with attributes, appliedTraits, constructor, persistor, callbacks }
  match d.template with
  | none => pure ()
  | some t =>
    let parent ← copy t.parent
    let model ← copy t.model
    let traits ← copySlot copy (copyDefinitionTable copy) t.traits
    set fun d => { d with template := some { parent, model, traits } }
  copyExtras copy v (.definition id)
  return .definition id

/-- Goes through what a table of definitions holds. -/
def visitTable (t : Slot (Table DefinitionId)) : CopyM Unit := do
  match t with
  | .own t =>
    for d in t.values do
      let _ ← copy (.definition d)
  | .given v =>
    let _ ← copy v

/-- A registry cannot be copied once its definitions have been. -/
def copyRegistry (r : RegistryId) : CopyM Value := do
  match (← world).registryAt? r with
  | none => CopyM.fail none
  | some registry => do
    visitTable copy registry.factories
    visitTable copy registry.traits
    CopyM.fail none

/-- An evaluator is copied with its settings and what it calls for associations. -/
def copyEvaluator (v : Value) (e : Evaluator) : CopyM Value := do
  let id : EvaluatorId := ⟨(← world).evaluators.size⟩
  let v' ← begin v (.evaluator <$> Action.newEvaluator e)
  let settings ← copy e.settings
  let associate ← copy e.associate
  perform (modify fun w => w.modifyEvaluator id fun e => { e with settings, associate })
  copyExtras copy v v'
  return v'

def copyRunner (v : Value) (r : Runner) : CopyM Value := do
  let id : RunnerId := ⟨(← world).runners.size⟩
  let v' ← begin v do
    modify fun w => { w with runners := w.runners.push r }
    return .runner id
  let registry ← copy r.registry
  let settings ← copy r.settings
  let evaluator ← copy r.evaluator
  perform (modify fun w => w.modifyRunner id fun _ => { registry, settings, evaluator })
  copyExtras copy v v'
  return v'

def copySettings (v : Value) (s : RunnerSettings) : CopyM Value := do
  let v' ← begin v (.settings <$> Action.newSettings s)
  copyExtras copy v v'
  return v'

def copyBuilder (v : Value) (b : Builder) : CopyM Value := do
  let id : BuilderId := ⟨(← world).builders.size⟩
  let v' ← begin v (Action.newBuilder b)
  let definition ← copy b.definition
  let registry ← copy b.registry
  perform (modify fun w => w.modifyBuilder id fun b => { b with definition, registry })
  copyExtras copy v v'
  return v'

/-- An evaluation is copied with its plan, all that it has computed and what it calls. -/
def copyEvaluation (v : Value) (id : EvaluationId) : CopyM Value := do
  match (← world).evaluation? id with
  | none => return v
  | some e =>
    let id' : EvaluationId := ⟨(← world).evaluations.size⟩
    perform (modify fun w => { w with evaluations := w.evaluations.push e })
    remember (.evaluation id) (.evaluation id')
    remember (.context id) (.context id')
    let planId ← match ← copy (.plan e.planId) with
      | .plan p => pure p
      | _ => pure e.planId
    let plan := ((← world).plan? planId).getD e.plan
    let associate ← copy e.associate
    let declarations ← copyOptional copy e.declarations
    let values ← copySlot copy (copyTable copy) e.values
    let active ← copySlot copy (fun names => return names) e.active
    let extras ← copyTable copy e.extras
    perform (modify fun w => w.modifyEvaluation id' fun e =>
      { e with planId, plan, associate, declarations, values, active, extras })
    return (((← get).copies.lookup v).getD v)

/-- Copies a value that is not yet being copied. -/
def copyAnew (v : Value) : CopyM Value := do
  let w ← world
  match v with
  | .object o => ((w.heap.get? o).map (copyObject copy v)).getD (return v)
  | .function f => ((w.function? f).map (copyFunction copy v)).getD (return v)
  | .method _ (.model _) _ => return v
  | .method _ receiver name =>
    if w.isPlain receiver then return v
    else
      let receiver ← copy receiver
      begin v (Action.newMethod receiver name)
  | .fields _ => do
    let v' ← begin v (Action.alloc (.dict []))
    let entries ← ((w.entries? v).getD []).mapM fun e => return (e.1, ← copy e.2)
    put v' (.dict entries)
    return v'
  | .tableView _ aspect table =>
    if (w.entries? table).isSome then CopyM.fail none
    else
      let table ← copy table
      begin v do return .tableView (← Action.newSerial) aspect table
  | .plan p =>
    match w.stored? p with
    | some stored =>
      let stored ← copyPlan copy stored
      begin v (.plan <$> Action.newPlan stored)
    | none => return v
  | .definition d => ((w.definitions.get? d).map (copyDefinition copy v)).getD (return v)
  | .builder b => ((w.builder? b).map (copyBuilder copy v)).getD (return v)
  | .registry r | .resolver r => copyRegistry copy r
  | .runner r => ((w.runner? r).map (copyRunner copy v)).getD (return v)
  | .evaluator e => ((w.evaluator? e).map (copyEvaluator copy v)).getD (return v)
  | .settings s => ((w.settingsAt? s).map (copySettings copy v)).getD (return v)
  | .context e | .evaluation e => copyEvaluation copy v e
  | .inner type _ _ => if type = "lock" || type = "mappingproxy" then CopyM.fail none else return v
  | v => return v

end Parts

/-- Copies a value; `depth` bounds how many references lie on the way to it. -/
def copyValue : Nat → Value → CopyM Value
  | 0, _ => throw (Failure.raise .tooDeep)
  | depth + 1, v => do
    match (← get).copies.lookup v with
    | some copy => return copy
    | none => copyAnew (copyValue depth) v

/-- On any path a changeable thing occurs once, and a tuple at most once between two of them. -/
def copyDepth (w : World) : Nat :=
  let things := w.heap.size + w.functions.size + w.definitions.size + w.plans.size
    + w.registries.size + w.runners.size + w.evaluators.size + w.settings.size
    + w.builders.size + w.evaluations.size + 2
  things * things

namespace Action

def copying {α : Type} (a : Nat → CopyM α) : Action α := do
  let w ← get
  let (result, s) := (a (copyDepth w)).run.run ⟨w, []⟩
  set s.world
  match result with
  | .ok v => return v
  | .error e => throw e

/-- **A deep copy.** -/
def copy (v : Value) : Action Value := copying fun depth => copyValue depth v

end Action

end TraitFactory
