import TraitFactory.Proofs.Recording

/-!
# The recorded evaluator

The evaluator with its marks: what it does itself is told by it, and what is done inside what it
calls is told by that. Each part is proved to record the part that it is named for.
-/

namespace TraitFactory

open Action Recorded

/-- **Surroundings that tell what is done in them.** What an association asks for is called
together with the association and the evaluation that it is computed for. -/
structure Observed where
  host : Host
  call : Value → List Value → Recorded Value
  associate : EvaluationId → Association → Value → List Value → Recorded Value
  records_call : ∀ f arguments, Records (call f arguments) (host.call f arguments)
  records_associate : ∀ e a f arguments, Records (associate e a f arguments) (host.call f arguments)

/-- Surroundings in which nothing is told of what is called. -/
def Observed.silent (host : Host) : Observed where
  host := host
  call f arguments := Recorded.silent (host.call f arguments)
  associate _ _ f arguments := Recorded.silent (host.call f arguments)
  records_call _ _ := records_silent _
  records_associate _ _ _ _ := records_silent _

/-! ## 1. Attributes -/

namespace Action

/-- What an association asks for: what is called for it, and with what; or nothing. -/
def request? (e : EvaluationId) (d : Declaration) (a : Association) :
    Action (Option (Value × List Value)) := do
  let evaluation ← getEvaluation e
  match evaluation.strategyFor ((← get).isTrue evaluation.useParentStrategy) a with
  | none => return none
  | some strategy =>
    if evaluation.associate = .null then fail (.noAssociationHook d.name)
    else
      let factory := match a.factory with
        | some factory => if factory.isEmpty then d.name else factory
        | none => d.name
      let overrides ← copy (← alloc (.dict (← entriesOf (some a.overrides))))
      let traits ← (Parts.lasting (.object d.valueObject) "traits" (a.traits.map .text)).2
      return some (evaluation.associate, [.text factory, traits, overrides, strategy])

theorem buildAssociation_eq (host : Host) (e : EvaluationId) (d : Declaration) (a : Association) :
    buildAssociation host e d a = request? e d a >>= fun
      | none => pure .null
      | some request => host.call request.1 request.2 := by
  rw [buildAssociation, request?, bind_assoc]
  congr 1
  funext evaluation
  rw [bind_assoc]
  congr 1
  funext w
  rcases evaluation.strategyFor (w.isTrue evaluation.useParentStrategy) a with _ | strategy
  · rfl
  · dsimp only
    split
    · rfl
    · simp only [bind_assoc]
      rfl

theorem resolve_eq (host : Host) (e : EvaluationId) :
    resolve host e = (do namesToResolve (← getEvaluation e)) >>= fun names =>
      (names.mapM (readAmong host e names.length)) >>= fun entries => pure ⟨entries⟩ := by
  simp only [resolve, bind_assoc]

end Action

namespace Recorded

variable (O : Observed)

def buildAssociation (e : EvaluationId) (d : Declaration) (a : Association) : Recorded Value := do
  match ← silent (request? e d a) with
  | none => return .null
  | some request => O.associate e a request.1 request.2

def compute (e : EvaluationId) (d : Declaration) : Recorded Value :=
  match d.value with
  | .fixed v shared => silent (if shared then return v else copy v)
  | .computed fn => do
    if (← silent get).arity fn = 0 then O.call fn [] else O.call fn [.context e]
  | .association a => buildAssociation O e d a

/-- **Reads an attribute**, and tells of it when it is computed. -/
def read (e : EvaluationId) (name : String) : Recorded Value := do
  let evaluation ← silent (getEvaluation e)
  match ← silent (computed? evaluation name) with
  | some v => return v
  | none =>
    let active ← silent (activeNames evaluation)
    if name ∈ active then
      silent (failInFactory (.attributeCycle name (Evaluation.chain active name))
        evaluation.plan.factory)
    else
      match ← silent (declarationFor? evaluation name) with
      | none => silent (failInFactory (.undefinedAttribute name) evaluation.plan.factory)
      | some d =>
        silent (activate e name)
        let outcome ← (doing e (.computes name) (compute O e d)).attempt
        silent (deactivate e)
        match outcome with
        | .ok v =>
          silent (keepComputed e name v)
          return v
        | .error failure =>
          silent (throw (if failure.cause.isOwn then failure
            else failure.addNote (evaluation.note name d)))

def readAmong (e : EvaluationId) (count : Nat) (name : String) : Recorded (String × Value) := do
  let v ← read O e name
  match (← silent (getEvaluation e)).declarations.bind (← silent get).entries? with
  | some entries =>
    if entries.length = count then return (name, v)
    else silent (fail (.runtime "dictionary changed size during iteration"))
  | none => return (name, v)

def resolve (e : EvaluationId) : Recorded (Table Value) := do
  let names ← silent (do namesToResolve (← getEvaluation e))
  return ⟨← names.mapM fun name => doing e (.resolves name) (readAmong O e names.length name)⟩

variable {O}

theorem records_buildAssociation (e : EvaluationId) (d : Declaration) (a : Association) :
    Records (buildAssociation O e d a) (Action.buildAssociation O.host e d a) := by
  rw [buildAssociation_eq]
  refine records_silent_bind fun request => ?_
  cases request with
  | none => exact records_pure _
  | some request => exact O.records_associate e a _ _

theorem records_compute (e : EvaluationId) (d : Declaration) :
    Records (compute O e d) (Action.compute O.host e d) := by
  unfold compute Action.compute
  cases d.value with
  | fixed v shared => exact records_silent _
  | computed fn =>
    refine records_silent_bind fun w => ?_
    split
    · exact O.records_call _ _
    · exact O.records_call _ _
  | association a => exact records_buildAssociation e d a

theorem records_read (e : EvaluationId) (name : String) :
    Records (read O e name) (Action.read O.host e name) := by
  refine records_silent_bind fun evaluation => records_silent_bind fun kept => ?_
  cases kept with
  | some v => exact records_pure v
  | none =>
    refine records_silent_bind fun active => ?_
    split
    · exact records_silent _
    · refine records_silent_bind fun declaration => ?_
      cases declaration with
      | none => exact records_silent _
      | some d =>
        refine records_silent_bind fun _ => ((records_compute e d).doing e _).attempt.bind
          fun outcome => records_silent_bind fun _ => ?_
        cases outcome with
        | ok v => exact records_silent_bind fun _ => records_pure v
        | error failure => exact records_silent _

theorem records_readAmong (e : EvaluationId) (count : Nat) (name : String) :
    Records (readAmong O e count name) (Action.readAmong O.host e count name) := by
  refine (records_read e name).bind fun v => records_silent_bind fun evaluation =>
    records_silent_bind fun w => ?_
  cases evaluation.declarations.bind w.entries? with
  | some entries =>
    dsimp only
    split
    · exact records_pure _
    · exact records_silent _
  | none => exact records_pure _

theorem records_resolve (e : EvaluationId) :
    Records (resolve O e) (Action.resolve O.host e) := by
  rw [resolve_eq]
  exact records_silent_bind fun names =>
    (records_mapM (fun name => (records_readAmong e _ name).doing e _) names).bind
      fun entries => records_pure _

end Recorded

/-! ## 2. Reading parts of an instance -/

namespace Recorded

variable (O : Observed)

/-- Reads a named part of a value, which may be an attribute that has not been computed yet. -/
def getAttr (v : Value) (name : String) : Recorded Value := do
  match v with
  | .context id =>
    match (contextParts (← silent (getEvaluation id)) id).lookup name with
    | some part => silent part
    | none =>
      if name.startsWith "__" then silent (fail (.noAttribute (some name)))
      else read O (← silent (evaluationOf id)) name
  | v => silent (Action.getAttr O.host v name)

def getAttrOr (v : Value) (name : String) (default : Value) : Recorded Value :=
  (getAttr O v name).recover fun e =>
    silent (if e.cause.lacksAttribute then return default else throw e)

def hasAttr (v : Value) (name : String) : Recorded Bool := do
  match ← (getAttr O v name).attempt with
  | .ok _ => return true
  | .error e => silent (if e.cause.lacksAttribute then return false else throw e)

variable {O}

theorem records_getAttr (v : Value) (name : String) :
    Records (getAttr O v name) (Action.getAttr O.host v name) := by
  cases v with
  | context id =>
    refine records_silent_bind fun evaluation => ?_
    cases (contextParts evaluation id).lookup name with
    | some part => exact records_silent part
    | none =>
      show Records (if name.startsWith "__" then _ else _) (contextAttribute O.host id name)
      unfold contextAttribute
      split
      · exact records_silent _
      · exact records_silent_bind fun e => records_read e name
  | _ => exact records_silent _

theorem records_getAttrOr (v : Value) (name : String) (default : Value) :
    Records (getAttrOr O v name default) (Action.getAttrOr O.host v name default) :=
  (records_getAttr v name).recover fun _ => records_silent _

theorem records_hasAttr (v : Value) (name : String) :
    Records (hasAttr O v name) (Action.hasAttr O.host v name) := by
  refine (records_getAttr v name).attempt.bind fun outcome => ?_
  cases outcome with
  | ok x => exact records_pure true
  | error e => exact records_silent _

end Recorded

/-! ## 3. The lifecycle -/

namespace Action

/-- Whether a value lacks a key. -/
def lacks (v key : Value) : Action Bool := do return !(← contains v key)

/-- Assigns an attribute to an instance. -/
def assignTo (v : Value) (entry : Value × Value) : Action Unit :=
  match entry.1.asText? with
  | some name => setAttr v name entry.2
  | none => wrongType

theorem assign_eq (v read : Value) (entry : Value × Value) :
    assign v read entry = lacks read entry.1 >>= fun b =>
      if b then assignTo v entry else pure () := by
  rw [assign, lacks, bind_assoc]
  congr 1
  funext b
  cases b <;> rfl

theorem stub_eq (host : Host) (ev : EvaluatorId) (v attributes : Value) :
    stub host ev v attributes =
      (lacks attributes (.text "id") >>= fun b =>
        if b then setAttr v "id" =<< drawId ev else pure ()) >>= fun _ =>
          persistenceMethods.forM (disable host v) := by
  rw [stub, lacks, bind_assoc, bind_assoc]
  congr 1
  funext b
  cases b with
  | true => rfl
  | false =>
    show (drawId ev >>= fun id => setAttr v "id" id >>= fun _ => _) =
      (drawId ev >>= fun id => setAttr v "id" id) >>= fun _ => _
    rw [bind_assoc]

end Action

namespace Recorded

variable (O : Observed) (e : EvaluationId)

def instanceOf : Value → Recorded Value
  | .null => silent (construct Model.namespaceModel [] [])
  | .model m => silent (construct m [] [])
  | f => O.call f []

def constructInstance (plan : Plan) (attributes : Value) : Recorded (Value × Value) := do
  let read ← silent (alloc (.set []))
  match plan.constructor with
  | none => return (← instanceOf O plan.model, read)
  | some fn =>
    let snapshot ← silent (alloc (.snapshot
      { table := attributes, model := plan.model, read := read }))
    let made ← (O.call fn [snapshot]).noting
      s!"while running the constructor of factory '{plan.factory}'"
    return (made, ← silent (readOf snapshot))

/-- The construction of the instance, and what is left to be assigned after it. -/
def made (plan : Plan) (attributes : Value) :
    Recorded ((Value × Value) × List (Value × Value)) := do
  let instance' ← constructInstance O plan attributes
  tell (.makes e instance'.1)
  return (instance', ← silent (entriesOf (some attributes)))

/-- The name of an attribute among the entries of a dictionary. -/
def nameOf (entry : Value × Value) : String := entry.1.asText?.getD ""

def assign (v read : Value) (entry : Value × Value) : Recorded Unit :=
  doingIf e (.assigns (nameOf entry)) (silent (lacks read entry.1))
    (silent (assignTo v entry))

def constructWith (plan : Plan) (attributes : Value) : Recorded Value := do
  let ((v, read), entries) ← doing e .constructs (made O e plan attributes)
  entries.forM (assign e v read)
  return v

def persist (plan : Plan) (v : Value) : Recorded Unit := do
  match plan.persistor with
  | some fn =>
    let _ ← (O.call fn [v]).noting s!"while running the persistor of factory '{plan.factory}'"
  | none =>
    let save ← getAttrOr O v "save" .null
    if save = .null then
      silent (do failInFactory (.noSaveMethod ((← get).typeName v)) plan.factory)
    else
      let _ ← O.call save []

def disable (v : Value) (method : String) : Recorded Unit :=
  doingIf e (.disables method) (hasAttr O v method) (silent do
    setAttr v method (← newFunction (refusal ((← get).typeName v) method)))

def stub (ev : EvaluatorId) (v attributes : Value) : Recorded Unit := do
  doingIf e .numbers (silent (lacks attributes (.text "id")))
    (silent (setAttr v "id" =<< drawId ev))
  persistenceMethods.forM (disable O e v)

def invoke (fn v context : Value) : Recorded Value := do
  if 2 ≤ (← silent get).arity fn then O.call fn [v, context] else O.call fn [v]

def fire (plan : Plan) (event : Event) (v context : Value) : Recorded Unit :=
  (plan.callbacksFor event).forM fun c => doing e (.calls c) do
    let _ ← (invoke O c.fn v context).noting s!"while running {event.name} callback from {c.owner}"

def perform (ev : EvaluatorId) (plan : Plan) (attributes v : Value) : Stage → Recorded Unit
  | .stub => stub O e ev v attributes
  | .fire event => fire O e plan event v (.context e)
  | .persist => doing e .persists (persist O plan v)

/-- **What follows once an evaluation has begun.** -/
def lifecycle (ev : EvaluatorId) (plan : Plan) (strategy : Strategy) : Recorded Value := do
  let values ← resolve O e
  let attributes ← silent (Parts.dict (values.entries.map fun a => (.text a.1, a.2)))
  if strategy = .attributesFor then return attributes
  else
    let v ← constructWith O e plan attributes
    strategy.stages.forM (perform O e ev plan attributes v)
    return v

variable {O}

theorem records_instanceOf (model : Value) :
    Records (instanceOf O model) (Action.instanceOf O.host model) := by
  unfold instanceOf Action.instanceOf
  cases model <;> first | exact records_silent _ | exact O.records_call _ _

theorem records_constructInstance (plan : Plan) (attributes : Value) :
    Records (constructInstance O plan attributes)
      (Action.constructInstance O.host plan attributes) := by
  refine records_silent_bind fun read => ?_
  cases plan.constructor with
  | none => exact (records_instanceOf _).bind fun v => records_pure _
  | some fn =>
    exact records_silent_bind fun snapshot => ((O.records_call fn _).noting _).bind fun v =>
      records_silent_bind fun _ => records_pure _

theorem records_made (plan : Plan) (attributes : Value) :
    Records (made O e plan attributes) (Action.constructInstance O.host plan attributes >>= fun v =>
      entriesOf (some attributes) >>= fun entries => pure (v, entries)) := by
  refine (records_constructInstance plan attributes).bind fun v => ?_
  exact (records_tell _).bind fun _ => records_silent_bind fun _ => records_pure _

theorem records_assign (v read : Value) (entry : Value × Value) :
    Records (assign e v read entry) (Action.assign v read entry) := by
  rw [Action.assign_eq]
  exact (records_silent _).doingIf e _ (records_silent _)

theorem records_constructWith (plan : Plan) (attributes : Value) :
    Records (constructWith O e plan attributes)
      (Action.constructWith O.host plan attributes) := by
  have hmade : Action.constructWith O.host plan attributes =
      (Action.constructInstance O.host plan attributes >>= fun made =>
        entriesOf (some attributes) >>= fun entries => pure (made, entries)) >>= fun made =>
          made.2.forM (Action.assign made.1.1 made.1.2) >>= fun _ => pure made.1.1 := by
    simp only [Action.constructWith, assignUnread, bind_assoc, pure_bind]
  rw [hmade]
  refine Records.bind (records_made e plan attributes) fun made => ?_
  exact (records_forM (fun entry => records_assign e _ _ entry) _).bind fun _ => records_pure _

theorem records_persist (plan : Plan) (v : Value) :
    Records (persist O plan v) (Action.persist O.host plan v) := by
  unfold persist Action.persist
  cases plan.persistor with
  | some fn => exact ((O.records_call fn _).noting _).bind fun _ => records_pure _
  | none =>
    refine (records_getAttrOr v _ _).bind fun save => ?_
    split
    · exact records_silent _
    · exact (O.records_call save _).bind fun _ => records_pure _

theorem records_disable (v : Value) (method : String) :
    Records (disable O e v method) (Action.disable O.host v method) :=
  (records_hasAttr v method).doingIf e _ (records_silent _)

theorem records_stub (ev : EvaluatorId) (v attributes : Value) :
    Records (stub O e ev v attributes) (Action.stub O.host ev v attributes) := by
  rw [Action.stub_eq]
  exact ((records_silent _).doingIf e _ (records_silent _)).bind fun _ =>
    records_forM (fun method => records_disable e v method) _

theorem records_invoke (fn v context : Value) :
    Records (invoke O fn v context) (Action.invoke O.host fn v context) := by
  refine records_silent_bind fun w => ?_
  split
  · exact O.records_call _ _
  · exact O.records_call _ _

theorem records_fire (plan : Plan) (event : Event) (v context : Value) :
    Records (fire O e plan event v context) (Action.fire O.host plan event v context) := by
  refine records_forM (fun c => Records.doing e (.calls c) ?_) _
  exact ((records_invoke c.fn v context).noting _).bind fun _ => records_pure ()

theorem records_perform (ev : EvaluatorId) (plan : Plan) (attributes v : Value) (stage : Stage) :
    Records (perform O e ev plan attributes v stage)
      (Action.perform O.host e ev plan attributes v stage) := by
  cases stage with
  | stub => exact records_stub e ev v attributes
  | fire event => exact records_fire e plan event v _
  | persist => exact (records_persist plan v).doing e _

theorem records_lifecycle (ev : EvaluatorId) (plan : Plan) (strategy : Strategy) :
    Records (lifecycle O e ev plan strategy) (do
      let values ← Action.resolve O.host e
      let attributes ← Parts.dict (values.entries.map fun a => (.text a.1, a.2))
      if strategy = .attributesFor then return attributes
      else
        let v ← Action.constructWith O.host plan attributes
        strategy.stages.forM (Action.perform O.host e ev plan attributes v)
        return v) := by
  refine (records_resolve e).bind fun values => records_silent_bind fun attributes => ?_
  split
  · exact records_pure _
  · exact (records_constructWith e plan attributes).bind fun v =>
      (records_forM (records_perform e ev plan attributes v) _).bind fun _ => records_pure v

end Recorded

/-! ## 4. Whole runs -/

namespace Recorded

variable (O : Observed)

def overrideEntries (overrides : Value) : Recorded (List (Value × Value)) := do
  let w ← silent get
  match w.isTrue overrides, w.entries? overrides with
  | false, _ => return []
  | true, some entries => return entries
  | true, none =>
    let items ← O.call (← getAttr O overrides "items") []
    silent (do (← walk items).mapM fun read => do bothParts (← read))

def followsParent (settings : Value) : Recorded Value := do
  match settings with
  | .settings s => return (← silent (getSettings s)).useParentStrategy
  | v => getAttr O v "use_parent_strategy"

def beginEvaluation (ev : EvaluatorId) (p : PlanId) (strategy : Strategy) :
    Recorded EvaluationId := do
  let evaluator ← silent (getEvaluator ev)
  let plan ← silent (getPlan p)
  let follows ← followsParent O evaluator.settings
  silent (newEvaluation
    { planId := p
      plan := plan
      strategy := .keyword (.strategy strategy)
      associate := evaluator.associate
      useParentStrategy := follows })

/-- **What is done before an evaluation begins**: its strategy is read, the overrides are put on top
of the plan, and the evaluation is made. -/
def prepare (ev : EvaluatorId) (p : PlanId) (strategy overrides : Value)
    (constructor persistor : Option Value) : Recorded (Strategy × Plan × EvaluationId) := do
  let s ← silent (strategyOf strategy)
  let entries ← overrideEntries O overrides
  let p ← silent (applyOverrides p entries constructor persistor)
  let plan ← silent (getPlan p)
  let e ← beginEvaluation O ev p s
  silent (debug evaluatorLogger
    ("Running " ++ s.name ++ " for factory " ++ plan.factory ++ " with traits "
      ++ View.tupleText (plan.traits.map Text.quoted)))
  return (s, plan, e)

/-- **The recorded evaluation of a plan**, for an association of another evaluation if it is a
nested one. -/
def evaluate (cause : Option (EvaluationId × Association)) (ev : EvaluatorId) (p : PlanId)
    (strategy overrides : Value) (constructor persistor : Option Value) : Recorded Value := do
  let (s, plan, e) ← prepare O ev p strategy overrides constructor persistor
  tell (.begins e plan s cause)
  lifecycle O e ev plan s

/-- The recorded run that an association asks for. -/
def runAssociated (cause : Option (EvaluationId × Association)) (r : RunnerId)
    (factory traits overrides strategy : Value) : Recorded Value := do
  silent (debugValues runnerLogger do
    return "Building association " ++ (← plainText factory) ++ " with traits "
      ++ (← quoted traits) ++ " via " ++ (← plainText strategy))
  let p ← silent (do compile (← registryOf r) factory (some traits))
  let ev ← silent (evaluatorOf r)
  evaluate O cause ev p strategy overrides none none

variable {O}

theorem records_overrideEntries (overrides : Value) :
    Records (overrideEntries O overrides) (Action.overrideEntries O.host overrides) := by
  refine records_silent_bind fun w => ?_
  cases w.isTrue overrides with
  | false => exact records_pure _
  | true =>
    cases w.entries? overrides with
    | some entries => exact records_pure _
    | none =>
      exact (records_getAttr _ _).bind fun f => (O.records_call f []).bind fun items =>
        records_silent _

theorem records_followsParent (settings : Value) :
    Records (followsParent O settings) (Action.followsParent O.host settings) := by
  unfold followsParent Action.followsParent
  cases settings with
  | settings s => exact records_silent_bind fun _ => records_pure _
  | _ => exact records_getAttr _ _

theorem records_beginEvaluation (ev : EvaluatorId) (p : PlanId) (strategy : Strategy) :
    Records (beginEvaluation O ev p strategy) (Action.beginEvaluation O.host ev p strategy) :=
  records_silent_bind fun _ => records_silent_bind fun _ =>
    (records_followsParent _).bind fun _ => records_silent _

variable (cause : Option (EvaluationId × Association))

/-- **The recorded evaluation comes to what the evaluation comes to.** -/
theorem records_evaluate (ev : EvaluatorId) (p : PlanId) (strategy overrides : Value)
    (constructor persistor : Option Value) :
    Records (evaluate O cause ev p strategy overrides constructor persistor)
      (Action.evaluate O.host ev p strategy overrides constructor persistor) := by
  simp only [evaluate, prepare, Action.evaluate, runPlan, bind_assoc, pure_bind]
  refine records_silent_bind fun s => (records_overrideEntries overrides).bind fun entries =>
    records_silent_bind fun p => records_silent_bind fun plan =>
    (records_beginEvaluation ev p s).bind fun e => records_silent_bind fun _ => ?_
  exact (records_tell _).bind fun _ => records_lifecycle e ev plan s

theorem records_runAssociated (r : RunnerId) (factory traits overrides strategy : Value) :
    Records (runAssociated O cause r factory traits overrides strategy)
      (Action.runAssociated O.host r factory traits overrides strategy) := by
  have hrun : Action.runAssociated O.host r factory traits overrides strategy =
      debugValues runnerLogger (do
        return "Building association " ++ (← plainText factory) ++ " with traits "
          ++ (← quoted traits) ++ " via " ++ (← plainText strategy)) >>= fun _ =>
      (do compile (← registryOf r) factory (some traits)) >>= fun p =>
      evaluatorOf r >>= fun ev =>
      Action.evaluate O.host ev p strategy overrides none none := by
    simp only [Action.runAssociated, run, evaluateRun, bind_assoc]
  rw [hrun]
  exact records_silent_bind fun _ => records_silent_bind fun p => records_silent_bind fun ev =>
    records_evaluate cause ev p strategy overrides none none

end Recorded

end TraitFactory
