import TraitFactory.Host
import TraitFactory.Naming
import TraitFactory.Object.Copy
import TraitFactory.Object.Elements
import TraitFactory.Object.Equality

/-!
# Evaluations

An evaluation resolves the attributes of one plan lazily. An attribute is computed when it is
first read, and its value is kept. While it is being computed it is active, and reading an
active attribute is a cycle.
-/

namespace TraitFactory

namespace Evaluation

/-- The part of the active attributes from a name on, closed by the name. -/
def chain (active : List String) (name : String) : List String :=
  active.dropWhile (· ≠ name) ++ [name]

/-- Keeps the value of an attribute, as far as the evaluation keeps values itself. -/
def keep (e : Evaluation) (name : String) (v : Value) : Evaluation :=
  { e with values := e.values.modify fun t => t.insert name v }

/-- **The strategy of an association's run**: its own if it has one, else the surrounding run's
or `create`. Where only attributes are wanted, an association without one starts no run. -/
def strategyFor (e : Evaluation) (followParent : Bool) (a : Association) : Option Value :=
  match a.strategy with
  | some s => some (.keyword (.strategy s))
  | none =>
    if e.strategy.asText? = some Strategy.attributesFor.name then none
    else some (if followParent then e.strategy else .keyword (.strategy .create))

/-- What a failure is told on its way out of an attribute. -/
def note (e : Evaluation) (name : String) (d : Declaration) : String :=
  s!"while evaluating attribute '{name}' ({d.origin}) of factory '{e.plan.factory}'"

end Evaluation

namespace Action

def newEvaluation (e : Evaluation) : Action EvaluationId := do
  let w ← get
  set { w with evaluations := w.evaluations.push e }
  return ⟨w.evaluations.size⟩

def modifyEvaluation (e : EvaluationId) (f : Evaluation → Evaluation) : Action Unit :=
  modify fun w => w.modifyEvaluation e f

/-- The value of an attribute that has been computed. -/
def computed? (e : Evaluation) (name : String) : Action (Option Value) := do
  match e.values with
  | .own t => return t.get? name
  | .given v =>
    let w ← get
    match w.entries? v with
    | some entries => return w.entryValue? entries (.text name)
    | none => wrongType

/-- Keeps the value of an attribute. -/
def keepComputed (e : EvaluationId) (name : String) (v : Value) : Action Unit := do
  modifyEvaluation e (·.keep name v)
  let w ← get
  match (← getEvaluation e).values with
  | .own _ => return
  | .given (.object o) =>
    match w.heap.get? o with
    | some (.dict entries) => set (w.setObject o (.dict (w.insertEntry (.text name) v entries)))
    | _ => wrongType
  | .given _ => wrongType

/-- The declaration of an attribute, if it has one. -/
def declared? (e : Evaluation) (name : String) : Action (Option Value) := do
  match e.declarations with
  | none => return (e.plan.declaration? name).map fun d => .object d.object
  | some table =>
    let w ← get
    match w.entries? table with
    | some entries => return w.entryValue? entries (.text name)
    | none => wrongType

/-- The declaration by which an attribute is computed, if it has one. -/
def declarationFor? (e : Evaluation) (name : String) : Action (Option Declaration) := do
  match e.declarations with
  | none => return e.plan.declaration? name
  | some _ =>
    match ← declared? e name with
    | none | some .null => return none
    | some v =>
      match (← get).heap.object? v with
      | some (.declaration d) => return some d
      | _ => noAttribute

/-- The names that an evaluation resolves. -/
def namesToResolve (e : Evaluation) : Action (List String) := do
  match e.declarations with
  | none => return e.plan.names
  | some table =>
    match ((← get).entries? table).bind fun es => es.mapM fun d => d.1.asText? with
    | some names => return names
    | none => wrongType

/-! ## What is being computed -/

/-- The list that stands in the place of the active attributes. -/
def activeList (v : Value) : Action (ObjectId × List Value) := do
  match v, (← get).heap.object? v with
  | .object o, some (.list items) => return (o, items)
  | _, _ => noAttribute

/-- The names of the active attributes, the outermost first. -/
def activeNames (e : Evaluation) : Action (List String) := do
  match e.active with
  | .own names => return names
  | .given v =>
    match (← activeList v).2.mapM (·.asText?) with
    | some names => return names
    | none => wrongType

def activate (e : EvaluationId) (name : String) : Action Unit := do
  match (← getEvaluation e).active with
  | .own _ => modifyEvaluation e fun e => { e with active := e.active.modify (· ++ [name]) }
  | .given v =>
    let (o, items) ← activeList v
    modify fun w => w.setObject o (.list (items ++ [.text name]))

def deactivate (e : EvaluationId) : Action Unit := do
  match (← getEvaluation e).active with
  | .own _ => modifyEvaluation e fun e => { e with active := e.active.modify (·.dropLast) }
  | .given v =>
    let (o, items) ← activeList v
    if items.isEmpty then fail (.badIndex "pop from empty list")
    modify fun w => w.setObject o (.list items.dropLast)

/-! ## Computing -/

/-- An association's value: what the evaluation's hook builds for it, or nothing. -/
def buildAssociation (host : Host) (e : EvaluationId) (d : Declaration) (a : Association) :
    Action Value := do
  let evaluation ← getEvaluation e
  match evaluation.strategyFor ((← get).isTrue evaluation.useParentStrategy) a with
  | none => return .null
  | some strategy =>
    if evaluation.associate = .null then fail (.noAssociationHook d.name)
    let factory := match a.factory with
      | some factory => if factory.isEmpty then d.name else factory
      | none => d.name
    let overrides ← copy (← alloc (.dict (← entriesOf (some a.overrides))))
    let traits ← (Parts.lasting (.object d.valueObject) "traits" (a.traits.map .text)).2
    host.call evaluation.associate [.text factory, traits, overrides, strategy]

/-- A computed attribute's function is given the context unless it takes no argument. -/
def evaluateComputed (host : Host) (e : EvaluationId) (fn : Value) : Action Value := do
  if (← get).arity fn = 0 then host.call fn [] else host.call fn [.context e]

/-- Computes the value of a declaration anew. -/
def compute (host : Host) (e : EvaluationId) (d : Declaration) : Action Value :=
  match d.value with
  | .fixed v shared => if shared then return v else copy v
  | .computed fn => evaluateComputed host e fn
  | .association a => buildAssociation host e d a

/-- **Reads an attribute**, computing it on the first read. A failure that is none of the
library's own is noted with the attribute it crosses. -/
def read (host : Host) (e : EvaluationId) (name : String) : Action Value := do
  let evaluation ← getEvaluation e
  match ← computed? evaluation name with
  | some v => return v
  | none =>
    let active ← activeNames evaluation
    if name ∈ active then
      failInFactory (.attributeCycle name (Evaluation.chain active name)) evaluation.plan.factory
    else
      match ← declarationFor? evaluation name with
      | none => failInFactory (.undefinedAttribute name) evaluation.plan.factory
      | some d =>
        activate e name
        let outcome ← attempt (compute host e d)
        deactivate e
        match outcome with
        | .ok v =>
          keepComputed e name v
          return v
        | .error failure =>
          throw (if failure.cause.isOwn then failure else failure.addNote (evaluation.note name d))

/-- Reads an attribute while all are gone through, whose number must stay what it is. -/
def readAmong (host : Host) (e : EvaluationId) (count : Nat) (name : String) :
    Action (String × Value) := do
  let v ← read host e name
  match (← getEvaluation e).declarations.bind (← get).entries? with
  | some entries =>
    if entries.length = count then return (name, v)
    else fail (.runtime "dictionary changed size during iteration")
  | none => return (name, v)

/-- **Resolves every attribute**, in plan order. -/
def resolve (host : Host) (e : EvaluationId) : Action (Table Value) := do
  let names ← namesToResolve (← getEvaluation e)
  return ⟨← names.mapM (readAmong host e names.length)⟩

end Action

end TraitFactory
