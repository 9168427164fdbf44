import TraitFactory.Proofs.Errands
import TraitFactory.Proofs.Tracing

/-!
# The trail of a failure

The evaluator with its failures followed, on as many levels of nesting as there are, whatever the
functions do that it calls. What is open when one of them raises a failure is all that the failure
is told of, and it is told of it in the order in which it leaves it.
-/

namespace TraitFactory

open Action Traced

/-- **Surroundings in which failures are followed.** -/
structure Followed (host : Host) where
  call : Value → List Value → Traced Value
  traces_call : ∀ around f arguments, Traces around (call f arguments) (host.call f arguments)

namespace Traced

variable {host : Host} (T : Followed host)

/-! ## 1. Attributes -/

def buildAssociation (e : EvaluationId) (d : Declaration) (a : Association) : Traced Value := do
  match ← silent (request? e d a) with
  | none => return .null
  | some request => T.call request.1 request.2

def compute (e : EvaluationId) (d : Declaration) : Traced Value :=
  match d.value with
  | .fixed v shared => silent (if shared then return v else copy v)
  | .computed fn => do
    if (← silent get).arity fn = 0 then T.call fn [] else T.call fn [.context e]
  | .association a => buildAssociation T e d a

/-- **Reads an attribute.** While it is computed, the reading is open; what is wrong with the
reading itself is raised around it. -/
def read (e : EvaluationId) (name : String) : Traced Value := do
  let evaluation ← silent (getEvaluation e)
  match ← silent (computed? evaluation name) with
  | some v => return v
  | none =>
    let active ← silent (activeNames evaluation)
    if name ∈ active then
      silent (failInFactory (.attributeCycle name (Evaluation.chain active name))
        evaluation.plan.factory)
    else
      match ← silent (declarationFor? evaluation name) with
      | none => silent (failInFactory (.undefinedAttribute name) evaluation.plan.factory)
      | some d =>
        let c := Crossing.read name d.origin evaluation.plan.factory
        silent (activate e name)
        settle (under c (compute T e d)) fun outcome => do
          silent (deactivate e)
          match outcome with
          | .ok v =>
            silent (keepComputed e name v)
            return v
          | .error t => pass (t.across c)

def readAmong (e : EvaluationId) (count : Nat) (name : String) : Traced (String × Value) := do
  let v ← read T e name
  silent do
    match (← getEvaluation e).declarations.bind (← get).entries? with
    | some entries =>
      if entries.length = count then return (name, v)
      else fail (.runtime "dictionary changed size during iteration")
    | none => return (name, v)

def resolve (e : EvaluationId) : Traced (Table Value) := do
  let names ← silent (do namesToResolve (← getEvaluation e))
  return ⟨← names.mapM' (readAmong T e names.length)⟩

variable {T} {around : List Crossing}

theorem traces_buildAssociation (e : EvaluationId) (d : Declaration) (a : Association) :
    Traces around (buildAssociation T e d a) (Action.buildAssociation host e d a) := by
  rw [buildAssociation_eq]
  refine traces_silent_bind fun request => ?_
  cases request with
  | none => exact traces_pure _
  | some request => exact T.traces_call around _ _

theorem traces_compute (e : EvaluationId) (d : Declaration) :
    Traces around (compute T e d) (Action.compute host e d) := by
  unfold compute Action.compute
  cases d.value with
  | fixed v shared => exact traces_silent _
  | computed fn =>
    refine traces_silent_bind fun w => ?_
    split
    · exact T.traces_call around _ _
    · exact T.traces_call around _ _
  | association a => exact traces_buildAssociation e d a

/-- What a failure is told on its way out of an attribute. -/
theorem across_read (failure : Failure) (evaluation : Evaluation) (name : String)
    (d : Declaration) : failure.across (.read name d.origin evaluation.plan.factory) =
      if failure.cause.isOwn then failure else failure.addNote (evaluation.note name d) := by
  rw [Failure.across, Crossing.isTold]
  cases failure.cause.isOwn <;> rfl

/-- **Reading an attribute is crossed** by what is raised while it is computed. -/
theorem traces_read (e : EvaluationId) (name : String) :
    Traces around (read T e name) (Action.read host e name) := by
  refine traces_silent_bind fun evaluation => traces_silent_bind fun kept => ?_
  cases kept with
  | some v => exact traces_pure v
  | none =>
    refine traces_silent_bind fun active => ?_
    split
    · exact traces_silent _
    · refine traces_silent_bind fun declaration => ?_
      cases declaration with
      | none => exact traces_silent _
      | some d =>
        refine traces_silent_bind fun _ => (traces_compute e d).settle rfl
          (fun v => traces_silent_bind fun _ => traces_silent_bind fun _ => traces_pure v)
          fun t hunder => traces_silent_bind fun _ => ?_
        dsimp only
        rw [← across_read]
        exact traces_pass hunder.across

theorem traces_readAmong (e : EvaluationId) (count : Nat) (name : String) :
    Traces around (readAmong T e count name) (Action.readAmong host e count name) :=
  (traces_read e name).bind fun _ => traces_silent _

theorem traces_resolve (e : EvaluationId) :
    Traces around (resolve T e) (Action.resolve host e) := by
  rw [resolve_eq]
  exact traces_silent_bind fun names =>
    (traces_mapM (fun name => traces_readAmong e _ name) names).bind fun _ => traces_pure _

/-! ## 2. Parts of an instance -/

variable (T)

/-- Reads a named part of a value, which may be an attribute that has not been computed yet. -/
def getAttr (v : Value) (name : String) : Traced Value := do
  match v with
  | .context id =>
    match (contextParts (← silent (getEvaluation id)) id).lookup name with
    | some part => silent part
    | none =>
      if name.startsWith "__" then silent (fail (.noAttribute (some name)))
      else read T (← silent (evaluationOf id)) name
  | v => silent (Action.getAttr host v name)

def getAttrOr (v : Value) (name : String) (default : Value) : Traced Value :=
  settle (getAttr T v name) fun
    | .ok x => return x
    | .error t => if t.now.cause.lacksAttribute then return default else pass t

def hasAttr (v : Value) (name : String) : Traced Bool :=
  settle (getAttr T v name) fun
    | .ok _ => return true
    | .error t => if t.now.cause.lacksAttribute then return false else pass t

variable {T}

theorem traces_getAttr (v : Value) (name : String) :
    Traces around (getAttr T v name) (Action.getAttr host v name) := by
  cases v with
  | context id =>
    refine traces_silent_bind fun evaluation => ?_
    cases (contextParts evaluation id).lookup name with
    | some part => exact traces_silent part
    | none =>
      show Traces around (if name.startsWith "__" then _ else _) (contextAttribute host id name)
      unfold contextAttribute
      split
      · exact traces_silent _
      · exact traces_silent_bind fun e => traces_read e name
  | _ => exact traces_silent _

/-- A failure that says that something is absent is no failure of those who look whether it is. -/
theorem traces_unlessLacking {α : Type} {t : Flight} (h : t.Under around) (x : α) :
    Traces around (if t.now.cause.lacksAttribute then pure x else pass t)
      (if t.now.cause.lacksAttribute then pure x else throw t.now : Action α) := by
  split
  · exact traces_pure x
  · exact traces_pass h

theorem traces_getAttrOr (v : Value) (name : String) (default : Value) :
    Traces around (getAttrOr T v name default) (Action.getAttrOr host v name default) := by
  rw [Action.getAttrOr, tryCatch_eq]
  exact (traces_getAttr v name).settle rfl (fun x => traces_pure x) fun _ hunder =>
    traces_unlessLacking hunder default

theorem traces_hasAttr (v : Value) (name : String) :
    Traces around (hasAttr T v name) (Action.hasAttr host v name) :=
  (traces_getAttr v name).settle rfl (fun _ => traces_pure true) fun _ hunder =>
    traces_unlessLacking hunder false

/-! ## 3. The lifecycle -/

variable (T)

def instanceOf : Value → Traced Value
  | .null => silent (construct Model.namespaceModel [] [])
  | .model m => silent (construct m [] [])
  | f => T.call f []

/-- **Constructs the instance.** While the plan's constructor is called, the call is open. -/
def constructInstance (plan : Plan) (attributes : Value) : Traced (Value × Value) := do
  let read ← silent (alloc (.set []))
  match plan.constructor with
  | none => return (← instanceOf T plan.model, read)
  | some fn =>
    let snapshot ← silent (alloc (.snapshot
      { table := attributes, model := plan.model, read := read }))
    let made ← within (.constructor plan.factory) (T.call fn [snapshot])
    return (made, ← silent (readOf snapshot))

def constructWith (plan : Plan) (attributes : Value) : Traced Value := do
  let (v, read) ← constructInstance T plan attributes
  silent (assignUnread v attributes read)
  return v

/-- Persists by the plan's persistor, whose call is open then, or else by the instance's own. -/
def persist (plan : Plan) (v : Value) : Traced Unit := do
  match plan.persistor with
  | some fn =>
    let _ ← within (.persistor plan.factory) (T.call fn [v])
  | none =>
    let save ← getAttrOr T v "save" .null
    if save = .null then
      silent (do failInFactory (.noSaveMethod ((← get).typeName v)) plan.factory)
    else
      let _ ← T.call save []

def disable (v : Value) (method : String) : Traced Unit := do
  if ← hasAttr T v method then
    silent (do setAttr v method (← newFunction (refusal ((← get).typeName v) method)))

def stub (ev : EvaluatorId) (v attributes : Value) : Traced Unit := do
  silent (do if ← lacks attributes (.text "id") then setAttr v "id" =<< drawId ev)
  persistenceMethods.forM (disable T v)

def invoke (fn v context : Value) : Traced Value := do
  if 2 ≤ (← silent get).arity fn then T.call fn [v, context] else T.call fn [v]

/-- **Fires an event.** While one of its callbacks is called, the call is open. -/
def fire (plan : Plan) (event : Event) (v context : Value) : Traced Unit :=
  (plan.callbacksFor event).forM fun c => do
    let _ ← within (.callback event c.owner) (invoke T c.fn v context)

def perform (e : EvaluationId) (ev : EvaluatorId) (plan : Plan) (attributes v : Value) :
    Stage → Traced Unit
  | .stub => stub T ev v attributes
  | .fire event => fire T plan event v (.context e)
  | .persist => persist T plan v

variable {T}

theorem traces_instanceOf (model : Value) :
    Traces around (instanceOf T model) (Action.instanceOf host model) := by
  unfold instanceOf Action.instanceOf
  cases model <;> first | exact traces_silent _ | exact T.traces_call around _ _

theorem traces_constructInstance (plan : Plan) (attributes : Value) :
    Traces around (constructInstance T plan attributes)
      (Action.constructInstance host plan attributes) := by
  refine traces_silent_bind fun read => ?_
  cases plan.constructor with
  | none => exact (traces_instanceOf _).bind fun v => traces_pure _
  | some fn =>
    have hcall : ∀ snapshot, Traces around
        (within (.constructor plan.factory) (T.call fn [snapshot]))
        (noting s!"while running the constructor of factory '{plan.factory}'"
          (host.call fn [snapshot])) := fun snapshot =>
      Traces.within (T.traces_call _ fn [snapshot]) fun _ => rfl
    exact traces_silent_bind fun snapshot => (hcall snapshot).bind fun v =>
      traces_silent_bind fun _ => traces_pure _

theorem traces_constructWith (plan : Plan) (attributes : Value) :
    Traces around (constructWith T plan attributes) (Action.constructWith host plan attributes) :=
  (traces_constructInstance plan attributes).bind fun _ => traces_silent_bind fun _ =>
    traces_pure _

theorem traces_persist (plan : Plan) (v : Value) :
    Traces around (persist T plan v) (Action.persist host plan v) := by
  unfold persist Action.persist
  cases plan.persistor with
  | some fn =>
    have hcall : Traces around (within (.persistor plan.factory) (T.call fn [v]))
        (noting s!"while running the persistor of factory '{plan.factory}'" (host.call fn [v])) :=
      Traces.within (T.traces_call _ fn [v]) fun _ => rfl
    exact hcall.bind fun _ => traces_pure _
  | none =>
    refine (traces_getAttrOr v _ _).bind fun save => ?_
    split
    · exact traces_silent _
    · exact (T.traces_call around save _).bind fun _ => traces_pure _

theorem traces_disable (v : Value) (method : String) :
    Traces around (disable T v method) (Action.disable host v method) := by
  refine (traces_hasAttr v method).bind fun found => ?_
  cases found with
  | true => exact traces_silent _
  | false => exact traces_pure _

theorem traces_stub (ev : EvaluatorId) (v attributes : Value) :
    Traces around (stub T ev v attributes) (Action.stub host ev v attributes) := by
  rw [Action.stub_eq]
  exact traces_silent_bind fun _ => traces_forM (fun method => traces_disable v method) _

theorem traces_invoke (fn v context : Value) :
    Traces around (invoke T fn v context) (Action.invoke host fn v context) := by
  refine traces_silent_bind fun w => ?_
  split
  · exact T.traces_call around _ _
  · exact T.traces_call around _ _

theorem traces_fire (plan : Plan) (event : Event) (v context : Value) :
    Traces around (fire T plan event v context) (Action.fire host plan event v context) := by
  refine traces_forM (fun c => ?_) _
  have hcall : Traces around (within (.callback event c.owner) (invoke T c.fn v context))
      (noting s!"while running {event.name} callback from {c.owner}"
        (Action.invoke host c.fn v context)) :=
    Traces.within (traces_invoke c.fn v context) fun _ => rfl
  exact hcall.bind fun _ => traces_pure ()

theorem traces_perform (e : EvaluationId) (ev : EvaluatorId) (plan : Plan) (attributes v : Value)
    (stage : Stage) : Traces around (perform T e ev plan attributes v stage)
      (Action.perform host e ev plan attributes v stage) := by
  cases stage with
  | stub => exact traces_stub ev v attributes
  | fire event => exact traces_fire plan event v _
  | persist => exact traces_persist plan v

/-! ## 4. Whole runs -/

variable (T)

def followsParent (settings : Value) : Traced Value := do
  match settings with
  | .settings s => return (← silent (getSettings s)).useParentStrategy
  | v => getAttr T v "use_parent_strategy"

def beginEvaluation (ev : EvaluatorId) (p : PlanId) (strategy : Strategy) :
    Traced EvaluationId := do
  let evaluator ← silent (getEvaluator ev)
  let plan ← silent (getPlan p)
  let follows ← followsParent T evaluator.settings
  silent (newEvaluation
    { planId := p
      plan := plan
      strategy := .keyword (.strategy strategy)
      associate := evaluator.associate
      useParentStrategy := follows })

def runPlan (ev : EvaluatorId) (p : PlanId) (strategy : Strategy) : Traced Value := do
  let plan ← silent (getPlan p)
  let e ← beginEvaluation T ev p strategy
  silent (debug evaluatorLogger
    ("Running " ++ strategy.name ++ " for factory " ++ plan.factory ++ " with traits "
      ++ View.tupleText (plan.traits.map Text.quoted)))
  let values ← resolve T e
  let attributes ← silent (Parts.dict (values.entries.map fun a => (.text a.1, a.2)))
  if strategy = .attributesFor then return attributes
  else
    let v ← constructWith T plan attributes
    strategy.stages.forM (perform T e ev plan attributes v)
    return v

def overrideEntries (overrides : Value) : Traced (List (Value × Value)) := do
  let w ← silent get
  match w.isTrue overrides, w.entries? overrides with
  | false, _ => return []
  | true, some entries => return entries
  | true, none =>
    let items ← T.call (← getAttr T overrides "items") []
    silent (do (← walk items).mapM fun read => do bothParts (← read))

/-- **Evaluates a plan** with its failures followed. -/
def evaluate (ev : EvaluatorId) (p : PlanId) (strategy overrides : Value)
    (constructor persistor : Option Value) : Traced Value := do
  let s ← silent (strategyOf strategy)
  let entries ← overrideEntries T overrides
  let p ← silent (applyOverrides p entries constructor persistor)
  runPlan T ev p s

def evaluateRun (r : RunnerId) (p : PlanId) (input : RunInput) : Traced Value := do
  let ev ← silent (evaluatorOf r)
  evaluate T ev p input.strategy input.overrides input.constructor input.persistor

def run (r : RunnerId) (input : RunInput) : Traced Value := do
  let p ← silent (do compile (← registryOf r) input.factory input.traits)
  evaluateRun T r p input

def runAssociated (r : RunnerId) (factory traits overrides strategy : Value) : Traced Value := do
  silent (debugValues runnerLogger do
    return "Building association " ++ (← plainText factory) ++ " with traits "
      ++ (← quoted traits) ++ " via " ++ (← plainText strategy))
  run T r
    { strategy := strategy, factory := factory, traits := some traits, overrides := overrides }

def runList (r : RunnerId) (count : Value) (input : RunInput) : Traced Value := do
  silent (requireCount count)
  let p ← silent (do compile (← registryOf r) input.factory input.traits)
  match count.asInt? with
  | none => silent wrongType
  | some n =>
    let results ← (List.replicate n.toNat ()).mapM' fun _ => evaluateRun T r p input
    silent (alloc (.list results))

variable {T}

theorem traces_followsParent (settings : Value) :
    Traces around (followsParent T settings) (Action.followsParent host settings) := by
  unfold followsParent Action.followsParent
  cases settings with
  | settings s => exact traces_silent_bind fun _ => traces_pure _
  | _ => exact traces_getAttr _ _

theorem traces_beginEvaluation (ev : EvaluatorId) (p : PlanId) (strategy : Strategy) :
    Traces around (beginEvaluation T ev p strategy)
      (Action.beginEvaluation host ev p strategy) :=
  traces_silent_bind fun _ => traces_silent_bind fun _ =>
    (traces_followsParent _).bind fun _ => traces_silent _

theorem traces_runPlan (ev : EvaluatorId) (p : PlanId) (strategy : Strategy) :
    Traces around (runPlan T ev p strategy) (Action.runPlan host ev p strategy) := by
  refine traces_silent_bind fun plan => (traces_beginEvaluation ev p strategy).bind fun e =>
    traces_silent_bind fun _ => (traces_resolve e).bind fun values =>
    traces_silent_bind fun attributes => ?_
  split
  · exact traces_pure _
  · exact (traces_constructWith plan attributes).bind fun v =>
      (traces_forM (traces_perform e ev plan attributes v) _).bind fun _ => traces_pure v

theorem traces_overrideEntries (overrides : Value) :
    Traces around (overrideEntries T overrides) (Action.overrideEntries host overrides) := by
  refine traces_silent_bind fun w => ?_
  cases w.isTrue overrides with
  | false => exact traces_pure _
  | true =>
    cases w.entries? overrides with
    | some entries => exact traces_pure _
    | none =>
      exact (traces_getAttr _ _).bind fun f => (T.traces_call around f []).bind fun items =>
        traces_silent _

/-- **Following an evaluation.** -/
theorem traces_evaluate (ev : EvaluatorId) (p : PlanId) (strategy overrides : Value)
    (constructor persistor : Option Value) :
    Traces around (evaluate T ev p strategy overrides constructor persistor)
      (Action.evaluate host ev p strategy overrides constructor persistor) :=
  traces_silent_bind fun s => (traces_overrideEntries overrides).bind fun _ =>
    traces_silent_bind fun p => traces_runPlan ev p s

theorem traces_evaluateRun (r : RunnerId) (p : PlanId) (input : RunInput) :
    Traces around (evaluateRun T r p input) (Action.evaluateRun host r p input) :=
  traces_silent_bind fun _ => traces_evaluate _ _ _ _ _ _

theorem traces_run (r : RunnerId) (input : RunInput) :
    Traces around (run T r input) (Action.run host r input) := by
  rw [run_eq]
  exact traces_silent_bind fun p => traces_evaluateRun r p input

theorem traces_runAssociated (r : RunnerId) (factory traits overrides strategy : Value) :
    Traces around (runAssociated T r factory traits overrides strategy)
      (Action.runAssociated host r factory traits overrides strategy) :=
  traces_silent_bind fun _ => traces_run r _

theorem traces_runList (r : RunnerId) (count : Value) (input : RunInput) :
    Traces around (runList T r count input) (Action.runList host r count input) := by
  rw [runList_eq]
  refine traces_silent_bind fun _ => traces_silent_bind fun p => ?_
  cases count.asInt? with
  | none => exact traces_silent _
  | some n =>
    exact (traces_mapM (fun _ => traces_evaluateRun r p input) _).bind fun _ => traces_silent _

end Traced

/-! ## 5. Functions -/

/-- An errand that is done with its failures followed. -/
def Errand.follow {host : Host} (T : Followed host) : Errand → Traced Value
  | .read e name => Traced.read T e name
  | .call f arguments => T.call f arguments
  | .run r input => Traced.run T r input
  | .runList r count input => Traced.runList T r count input
  | .evaluate ev p input =>
    Traced.evaluate T ev p input.strategy input.overrides input.constructor input.persistor

theorem Errand.traces_follow {host : Host} {T : Followed host} {around : List Crossing}
    (errand : Errand) : Traces around (errand.follow T) (errand.action host) := by
  cases errand with
  | read e name => exact traces_read e name
  | call f arguments => exact T.traces_call around f arguments
  | run r input => exact traces_run r input
  | runList r count input => exact traces_runList r count input
  | evaluate ev p input => exact traces_evaluate ev p _ _ _ _

namespace Activity

variable {host : Host} (T : Followed host)

/-- **What is done with its failures followed.** A failure that has been met in an errand is passed
on where it is what all ends with, as it was met; any other is raised here. -/
def follow (met : List Flight) : Activity → Traced Value
  | .ends (.ok v) => return v
  | .ends (.error failure) =>
    match met.find? fun t => t.now = failure with
    | some t => pass t
    | none => silent (throw failure)
  | .acts change next => do
    let w ← silent get
    silent (set (change w))
    (next w).follow met
  | .does errand next => settle (errand.follow T) fun
    | .ok v => (next (.ok v)).follow met
    | .error t => (next (.error t.now)).follow (t :: met)

variable {T} {around : List Crossing}

theorem traces_follow (activity : Activity) {met : List Flight} (hmet : ∀ t ∈ met, t.Under around) :
    Traces around (activity.follow T met) (activity.run host) := by
  induction activity generalizing met with
  | ends outcome =>
    cases outcome with
    | ok v => exact traces_pure v
    | error failure =>
      rw [follow]
      rcases hfound : met.find? (fun t => t.now = failure) with _ | t
      · rw [hfound]
        exact traces_silent _
      · rw [hfound]
        obtain rfl : t.now = failure := by simpa using List.find?_some hfound
        exact traces_pass (hmet t (List.mem_of_find?_eq_some hfound))
  | acts change next ih =>
    exact traces_silent_bind fun w => traces_silent_bind fun _ => ih w hmet
  | does errand next ih =>
    rw [follow, run]
    exact errand.traces_follow.settle rfl (fun v => ih (.ok v) hmet) fun t hunder =>
      ih (.error t.now) (List.forall_mem_cons.mpr ⟨hunder, hmet⟩)

end Activity

/-! ## 6. Levels of nesting -/

namespace Followed

/-- Surroundings in which there is nothing to be followed. -/
def exhausted : Followed .exhausted where
  call _ _ := silent (fail .tooDeep)
  traces_call _ _ _ := traces_silent _

section Atop

variable {host : Host} (T : Followed host) (activity : Value → List Value → Activity)

/-- A call one level above, with its failures followed. -/
def serve (f : Value) (arguments : List Value) : Traced Value :=
  match hookCall? f arguments with
  | some (r, factory, traits, overrides, strategy) =>
    Traced.runAssociated T r factory traits overrides strategy
  | none => (activity f arguments).follow T []

theorem traces_serve (around : List Crossing) (f : Value) (arguments : List Value) :
    Traces around (serve T activity f arguments) ((host.atop activity).call f arguments) := by
  rw [serve, Host.atop]
  dsimp only
  rcases hookCall? f arguments with _ | ⟨r, factory, traits, overrides, strategy⟩
  · have hmet : ∀ t ∈ ([] : List Flight), t.Under around := fun _ h => absurd h List.not_mem_nil
    exact Activity.traces_follow (activity f arguments) hmet
  · exact traces_runAssociated r factory traits overrides strategy

/-- Failures are followed one level above. -/
def atop : Followed (host.atop activity) := ⟨serve T activity, traces_serve T activity⟩

end Atop

/-- **Failures are followed on all levels.** -/
def tower (customs : Customs) : (n : Nat) → Followed (.tower customs n)
  | 0 => exhausted
  | n + 1 => (tower customs n).atop (customs n)

end Followed

/-- **The trail of a failure.** An evaluation that is followed comes to what the evaluation comes to,
whatever functions do, on however many levels. A failure that leaves it is the one that was raised,
with the notes that it had then and one note more for each thing that was open around it, from the
innermost outward: the calls of constructors, persistors and callbacks, and the attributes that were
being read if it is none of the library's own failures. -/
theorem Traced.evaluate_trail (customs : Customs) (n : Nat) (ev : EvaluatorId) (p : PlanId)
    (strategy overrides : Value) (constructor persistor : Option Value) (w : World) :
    (Action.evaluate (.tower customs n) ev p strategy overrides constructor persistor).execute w =
      match evaluate (.tower customs n) ev p strategy overrides constructor persistor [] w with
      | (.ok v, w') => (.ok v, w')
      | (.error t, w') => (.error { t.raised with
          notes := t.raised.notes ++
            (t.around.filter fun c => c.isTold t.raised.cause).map Crossing.words }, w') := by
  have htraces : Traces [] (evaluate (.tower customs n) ev p strategy overrides constructor persistor)
      (Action.evaluate (.tower customs n) ev p strategy overrides constructor persistor) :=
    traces_evaluate ev p strategy overrides constructor persistor
  have hagrees := htraces w
  generalize Action.execute _ w = outcome, evaluate _ ev p _ _ _ _ [] w = outcome' at hagrees ⊢
  cases hagrees with
  | ok v w' => rfl
  | error w' hunder => exact congrArg (fun failure => (Except.error failure, w')) hunder.now_eq

end TraitFactory
