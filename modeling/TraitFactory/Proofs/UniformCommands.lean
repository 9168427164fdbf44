import TraitFactory.Interpreter
import TraitFactory.Proofs.Errands
import TraitFactory.Proofs.UniformCompiling

/-!
# What is commanded alike

Runners are made and asked for runs in the same way in alike worlds, and so is everything else that
a session may command. Only to ask a registry how often it has changed is to ask for what alike
registries need not have in common.
-/

namespace TraitFactory

namespace Action

variable [Scrutiny] {host : Host} {α : Type} {Q : α → Prop}

/-! ## 1. Runners -/

theorem uniform_settingsFrom (entries : List (Value × Value)) : Uniform (settingsFrom entries) :=
  uniform_foldlM entries (fun s e => by
    split <;> first | exact uniform_pure _ | exact uniformWith_wrongType) _

theorem uniform_firstId (v : Value) : Uniform (firstId v) := by
  unfold firstId
  split
  · exact uniform_pure _
  · split
    · exact uniform_pure _
    · exact uniformWith_wrongType

theorem uniform_makeEvaluator (s : SettingsId) (associate : Value) :
    Uniform (makeEvaluator s associate) :=
  uniform_bind (uniform_getSettings s) fun _ => uniform_bind (uniform_firstId _) fun _ =>
    uniform_newEvaluator _

theorem uniform_newRunner (r : RegistryId) (settings : RunnerSettings) :
    Uniform (newRunner r settings) := by
  refine uniform_bind (uniform_newSettings settings) fun s =>
    uniform_bind (uniform_setCache r _) fun _ => uniformWith_get (fun _ _ => rfl) fun w =>
    uniform_bind (uniform_newMethod _ _) fun associate =>
    uniform_bind (uniform_makeEvaluator s associate) fun ev => ?_
  exact uniform_of_same fun _ _ => rfl

theorem uniform_newBareEvaluator : Uniform newBareEvaluator :=
  uniform_bind (uniform_newSettings _) fun _ => uniform_makeEvaluator _ _

theorem uniform_registryOf (r : RunnerId) : Uniform (registryOf r) := by
  refine uniform_bind (uniform_getRunner r) fun runner => ?_
  split
  · exact uniform_pure _
  · exact uniformWith_noAttribute

theorem uniform_evaluatorOf (r : RunnerId) : Uniform (evaluatorOf r) := by
  refine uniform_bind (uniform_getRunner r) fun runner => ?_
  split
  · exact uniform_pure _
  · exact uniformWith_noAttribute

theorem uniform_cacheSetting (r : RunnerId) : Uniform (cacheSetting r) := by
  refine uniform_bind (uniform_getRunner r) fun runner => ?_
  split
  · exact uniform_bind (uniform_getSettings _) fun _ => uniform_pure _
  · exact uniformWith_noAttribute

theorem uniform_modifySession (f : Session → Session) :
    Uniform (modify fun w => w.modifySession f : Action PUnit) := uniform_modify fun _ _ => rfl

theorem uniform_sessionRunner : Uniform sessionRunner := by
  refine uniformWith_get (fun _ _ => rfl) fun w => ?_
  dsimp only
  split
  · exact uniform_bind (uniform_registryOf _) fun _ => uniform_bind (uniform_cacheSetting _)
      fun _ => uniform_bind (uniform_setCache _ _) fun _ =>
      uniform_bind (uniform_modifySession _) fun _ => uniform_pure _
  · exact uniform_pure _

theorem uniform_useRunner (r : RunnerId) : Uniform (useRunner r) := uniform_modifySession _

theorem uniform_debugValues (logger : String) {message : Action String} (h : Uniform message) :
    Uniform (debugValues logger message) := by
  refine uniform_bind (uniform_attempt h) fun outcome => ?_
  cases outcome with
  | ok message => exact uniform_log _ _ _
  | error e => exact uniform_pure _

theorem uniform_configure (settings : RunnerSettings) : Uniform (configure settings) :=
  uniform_bind (uniform_newRunner _ settings) fun r => uniform_bind (uniform_useRunner r) fun _ =>
    uniform_bind (uniform_getRunner r) fun _ => uniform_bind (uniform_debugValues _
      (uniform_bind (uniform_written _ _) fun _ => uniform_pure _)) fun _ => uniform_pure r

/-! ## 2. Arguments -/

theorem uniform_registryArgument (registry : Option Value) : Uniform (registryArgument registry) := by
  unfold registryArgument
  split
  · exact uniform_pure _
  · exact uniformWith_noAttribute
  · exact uniformWith_get (fun _ _ => rfl) fun _ => uniform_registryOf _

theorem uniform_runnerArgument (runner : Option Value) : Uniform (runnerArgument runner) := by
  unfold runnerArgument
  split
  · exact uniform_pure _
  · exact uniformWith_noAttribute
  · exact uniform_sessionRunner

theorem uniform_planArgument (plan : Value) : Uniform (planArgument plan) := by
  unfold planArgument
  split
  · exact uniform_pure _
  · exact uniformWith_noAttribute

theorem uniform_evaluatorArgument (runner : Option Value) (bare : Bool) :
    Uniform (evaluatorArgument runner bare) := by
  unfold evaluatorArgument
  split
  · exact uniform_newBareEvaluator
  · exact uniform_bind (uniform_runnerArgument _) uniform_evaluatorOf

theorem uniform_methodInput (strategy : Strategy) (input : RunInput)
    (keywords : List (Value × Value)) : Uniform (methodInput strategy input keywords) := by
  have hdict : ∀ {f : Value → RunInput} (entries : List (Value × Value)),
      Uniform (Parts.dict entries >>= fun overrides => pure (f overrides)) := fun entries =>
    uniform_bind (uniform_alloc _) fun _ => uniform_pure _
  cases strategy
  all_goals
    unfold methodInput
    dsimp only
    split
    · exact uniform_bind uniformWith_wrongType fun _ => hdict _
    · exact hdict _

theorem uniform_methodStrategy (v : Value) : Uniform (methodStrategy v) := by
  unfold methodStrategy
  split
  · exact uniformWith_wrongType
  · split
    · exact uniform_pure _
    · exact uniformWith_noAttribute

theorem uniform_methodArguments (a : RunArguments) : Uniform (methodArguments a) :=
  uniform_bind (uniform_methodStrategy _) fun _ => uniform_bind (uniform_elementsOf _) fun _ =>
    uniform_bind (uniform_alloc _) fun _ => uniform_bind (uniform_keywordsOf _) fun _ =>
    uniform_methodInput _ _ _

/-! ## 3. Runs -/

theorem uniform_requireCount (count : Value) : Uniform (requireCount count) := by
  have hrefuse : Uniform (do fail (.negativeCount (← plainText count)) : Action Unit) :=
    uniform_bind (uniform_written _ _) fun _ => uniformWith_fail _
  unfold requireCount
  dsimp only
  split
  · split
    · exact hrefuse
    · exact uniform_pure _
  · split
    · exact hrefuse
    · exact uniform_pure _
  · exact uniformWith_wrongType

section Running

variable (hhost : host.Uniform)

include hhost

theorem uniform_resetIds (ev : EvaluatorId) : Uniform (resetIds host ev) := by
  refine uniform_bind (uniform_getEvaluator ev) fun evaluator =>
    uniform_bind (uniform_getAttr hhost ?_) fun v => uniform_bind (uniform_firstId v) fun _ =>
    uniform_modifyEvaluator ev _
  cases evaluator.settings <;> rfl

theorem uniform_resetRunner (r : RunnerId) : Uniform (resetRunner host r) :=
  uniform_bind (uniform_registryOf r) fun registry => uniform_bind (uniform_resetRegistry registry)
    fun _ => uniform_bind (uniform_evaluatorOf r) fun ev => uniform_resetIds hhost ev

theorem uniform_evaluateRun (r : RunnerId) (p : PlanId) (input : RunInput) :
    Uniform (evaluateRun host r p input) :=
  uniform_bind (uniform_evaluatorOf r) fun ev => uniform_evaluate hhost ev p _ _ _ _

/-- **One run is done alike.** -/
theorem uniform_run (r : RunnerId) (input : RunInput) : Uniform (run host r input) :=
  uniform_bind (uniform_registryOf r) fun registry => uniform_bind (uniform_compile registry _ _)
    fun p => uniform_evaluateRun hhost r p input

theorem uniform_runList (r : RunnerId) (count : Value) (input : RunInput) :
    Uniform (runList host r count input) := by
  refine uniform_bind (uniform_requireCount count) fun _ =>
    uniform_bind (uniform_registryOf r) fun registry =>
    uniform_bind (uniform_compile registry _ _) fun p => ?_
  split
  · exact uniformWith_wrongType
  · exact uniform_bind (uniform_mapM _ fun _ => uniform_evaluateRun hhost r p input) fun _ =>
      uniform_alloc _

/-- **So is the run that an association asks for.** -/
theorem uniform_runAssociated (r : RunnerId) (factory traits overrides strategy : Value) :
    Uniform (runAssociated host r factory traits overrides strategy) := by
  have hmessage : Uniform (do
      return "Building association " ++ (← plainText factory) ++ " with traits "
        ++ (← quoted traits) ++ " via " ++ (← plainText strategy)) :=
    uniform_bind (uniform_written _ _) fun _ => uniform_bind (uniform_written _ _) fun _ =>
      uniform_bind (uniform_written _ _) fun _ => uniform_pure _
  exact uniform_bind (uniform_debugValues _ hmessage) fun _ => uniform_run hhost r _

/-! ## 4. Commands -/

omit hhost in
theorem uniform_nothing {a : Action Unit} (h : Uniform a) : Uniform (nothing a) :=
  uniform_bind h fun _ => uniform_pure _

omit hhost in
theorem uniform_planDeclaration (p : PlanId) (attr : Value) : Uniform (planDeclaration p attr) :=
  uniform_bind (uniform_getPlan p) fun _ => uniform_pure _

omit hhost in
theorem uniform_planCallbacks (p : PlanId) (event : Value) : Uniform (planCallbacks p event) :=
  uniform_bind (uniform_getPlan p) fun _ => uniform_alloc _

end Running

end Action

/-- **Whether a command asks a registry for its count.** -/
def Command.asksCount : Command → Bool
  | .generation _ => true
  | _ => false

namespace Action

variable [Scrutiny] {host : Host}

/-- **Every other command is performed alike.** -/
theorem uniform_performCommand (hhost : host.Uniform) {c : Command} (h : c.asksCount = false) :
    Uniform (performCommand host c) := by
  have hregistry := uniform_registryArgument
  have hrunner := uniform_runnerArgument
  have hdefinition := uniform_definitionOf
  cases c with
  | defineFactory registry name model parent traits =>
    exact uniform_bind (hregistry registry) fun r => uniform_defineFactory r _ _ _ _
  | defineTrait registry name =>
    exact uniform_bind (hregistry registry) fun r => uniform_defineTrait r _
  | childFactory on name model traits => exact uniform_childFactory _ _ _ _
  | localTrait on name => exact uniform_localTrait _ _
  | set on name value computed => exact uniform_setAttribute _ _ _ _
  | associate on name factory traits strategy overrides => exact uniform_associate _ _ _ _ _ _
  | apply on traits => exact uniform_apply _ _
  | initializeWith on fn => exact uniform_initializeWith _ _
  | toCreate on fn => exact uniform_toCreate _ _
  | callback on event fn => exact uniform_callback _ _ _
  | callbackMethod on event fn => exact uniform_callbackMethod _ _ _
  | newTrait name => exact uniform_newTrait _
  | newFactory name parent model => exact uniform_newFactory _ _ _
  | registerFactory registry definition =>
    exact uniform_bind (hregistry registry) fun r => uniform_bind (hdefinition definition) fun d =>
      uniform_bind (uniform_registerFactory r d) fun _ => uniform_pure _
  | registerTrait registry scope name definition =>
    exact uniform_bind (hregistry registry) fun r => uniform_bind (hdefinition definition) fun d =>
      uniform_bind (uniform_registerTrait r _ _ d) fun _ => uniform_pure _
  | resolveTrait registry scope ref =>
    exact uniform_bind (hregistry registry) fun r => uniform_resolveTraitValue r _ _
  | factory registry ref =>
    exact uniform_bind (hregistry registry) fun r => uniform_findFactoryValue r _
  | definitionOf on => exact uniform_bind (hdefinition on) fun _ => uniform_pure _
  | declare definition name value =>
    exact uniform_nothing (uniform_bind (hdefinition definition) fun d => uniform_declare d _ _)
  | applyTrait definition ref =>
    exact uniform_nothing (uniform_bind (hdefinition definition) fun d => uniform_applyTrait d _)
  | addCallback definition event fn =>
    exact uniform_bind (hdefinition definition) fun d =>
      uniform_bind (uniform_addCallback d _ _) fun _ => uniform_pure _
  | touch registry => exact uniform_nothing (uniform_bind (hregistry registry) uniform_touch)
  | generation registry => cases h
  | newRegistry => exact uniform_bind uniform_newRegistry fun _ => uniform_pure _
  | resetRegistry registry =>
    exact uniform_nothing (uniform_bind (hregistry registry) uniform_resetRegistry)
  | resetRunner runner =>
    exact uniform_nothing (uniform_bind (hrunner runner) (uniform_resetRunner hhost))
  | invalidate registry =>
    exact uniform_nothing (uniform_bind (hregistry registry) uniform_invalidate)
  | setCache registry enabled =>
    exact uniform_nothing (uniform_bind (hregistry registry) fun r => uniform_setCache r _)
  | compile registry factory traits =>
    exact uniform_bind (hregistry registry) fun r => uniform_bind (uniform_compile r _ _) fun _ =>
      uniform_pure _
  | compileWith runner factory traits =>
    exact uniform_bind (hrunner runner) fun rn => uniform_bind (uniform_registryOf rn) fun r =>
      uniform_bind (uniform_compile r _ _) fun _ => uniform_pure _
  | applyOverrides plan overrides constructor persistor =>
    exact uniform_bind (uniform_planArgument plan) fun p =>
      uniform_bind (uniform_entriesOf overrides) fun _ =>
      uniform_bind (uniform_applyOverrides p _ _ _) fun _ => uniform_pure _
  | declarationIn plan name =>
    exact uniform_bind (uniform_planArgument plan) fun p => uniform_planDeclaration p _
  | callbacksFor plan event =>
    exact uniform_bind (uniform_planArgument plan) fun p => uniform_planCallbacks p _
  | newRunner registry settings =>
    exact uniform_bind (hregistry registry) fun r => uniform_bind (uniform_entriesOf settings)
      fun _ => uniform_bind (uniform_settingsFrom _) fun _ =>
      uniform_bind (uniform_newRunner r _) fun _ => uniform_pure _
  | configure settings =>
    exact uniform_bind (uniform_entriesOf settings) fun _ =>
      uniform_bind (uniform_settingsFrom _) fun _ => uniform_bind (uniform_configure _) fun _ =>
      uniform_pure _
  | resetStubIds runner =>
    exact uniform_nothing (uniform_bind (hrunner runner) fun rn =>
      uniform_bind (uniform_evaluatorOf rn) (uniform_resetIds hhost))
  | run runner arguments => exact uniform_bind (hrunner runner) fun r => uniform_run hhost r _
  | runMethod runner arguments =>
    exact uniform_bind (hrunner runner) fun r => uniform_bind (uniform_methodArguments arguments)
      fun _ => uniform_run hhost r _
  | runList runner count arguments =>
    exact uniform_bind (hrunner runner) fun r => uniform_runList hhost r _ _
  | runListMethod runner count arguments =>
    exact uniform_bind (hrunner runner) fun r => uniform_bind (uniform_methodArguments arguments)
      fun _ => uniform_runList hhost r _ _
  | evaluate runner bare plan strategy overrides constructor persistor =>
    exact uniform_bind (uniform_evaluatorArgument runner bare) fun ev =>
      uniform_bind (uniform_planArgument plan) fun p => uniform_evaluate hhost ev p _ _ _ _

end Action

/-! ## 5. Functions -/

open Action

namespace Errand

/-- What an errand may come to: what a call constructs is no registry. -/
def MayGive : Errand → Value → Prop
  | .call _ arguments, v => constructs arguments → v.isDetached
  | _, _ => True

variable [Scrutiny] {host : Host}

/-- **Errands are done alike.** -/
theorem uniform_action (hhost : host.Uniform) (errand : Errand) :
    UniformWith errand.MayGive (errand.action host) := by
  cases errand with
  | read e name => exact (uniform_read hhost e name).imp fun _ _ => trivial
  | call f arguments => exact hhost f arguments
  | run r input => exact (uniform_run hhost r input).imp fun _ _ => trivial
  | runList r count input => exact (uniform_runList hhost r count input).imp fun _ _ => trivial
  | evaluate ev p input => exact (uniform_evaluate hhost ev p _ _ _ _).imp fun _ _ => trivial

end Errand

namespace Activity

/-- **What does the same in alike worlds**: it changes them alike, and what it goes on with does not
depend on what only tells one from the other. What it comes to has a property. -/
def Discreet [Scrutiny] (Q : Value → Prop) : Activity → Prop
  | .ends outcome => ∀ v, outcome = .ok v → Q v
  | .acts change next => ∀ w w', World.Alike w w' →
      (change w).Alike (change w') ∧ next w' = next w ∧ (next w).Discreet Q
  | .does errand next => ∀ outcome, (∀ v, outcome = .ok v → errand.MayGive v) →
      (next outcome).Discreet Q

variable [Scrutiny] {host : Host} {Q : Value → Prop}

theorem uniform_run (hhost : host.Uniform) {activity : Activity} (h : activity.Discreet Q) :
    UniformWith Q (activity.run host) := by
  induction activity with
  | ends outcome => exact uniformWith_liftExcept h
  | acts change next ih =>
    intro w w' hw
    obtain ⟨hchange, hnext, hdiscreet⟩ := h w w' hw
    show Agree Q (((next w).run host).execute (change w)) (((next w').run host).execute (change w'))
    rw [hnext]
    exact ih w hdiscreet _ _ hchange
  | does errand next ih =>
    exact uniformWith_bind (uniformWith_attempt (errand.uniform_action hhost))
      fun outcome houtcome => ih outcome (h outcome houtcome)

/-- An action that does the same in alike worlds is done, and what it gives is gone on with. -/
theorem discreet_act {a : Action Value} {next : Except Failure Value → Activity} {R : Value → Prop}
    (ha : UniformWith R a) (h : ∀ outcome, (∀ v, outcome = .ok v → R v) →
      (next outcome).Discreet Q) : (act next a).Discreet Q := by
  intro w w' hw
  have hboth := ha w w' hw
  refine ⟨hboth.alike, congrArg next hboth.outcome, h _ fun v hv => ?_⟩
  generalize a.execute w = s, a.execute w' = s' at hboth hv
  cases hboth with
  | ok hx _ => exact Except.ok.inj hv ▸ hx
  | error e _ => cases hv

end Activity

/-- **Functions that do the same in alike worlds.** What they construct is no registry. -/
def Customs.Discreet [Scrutiny] (customs : Customs) : Prop :=
  ∀ n f arguments, (customs n f arguments).Discreet fun v => constructs arguments → v.isDetached

/-- **At every level of nesting calls do the same in alike worlds**, those of runners' hooks
included, if functions do. -/
theorem Host.uniform_tower [Scrutiny] {customs : Customs} (h : customs.Discreet) (n : Nat) :
    (Host.tower customs n).Uniform := by
  induction n with
  | zero => exact Host.uniform_exhausted
  | succ n ih =>
    intro f arguments
    show UniformWith _ (((Host.tower customs n).atop (customs n)).call f arguments)
    unfold Host.atop
    dsimp only
    rcases hhook : hookCall? f arguments with _ | ⟨r, factory, traits, overrides, strategy⟩
    · exact Activity.uniform_run ih (h n f arguments)
    · obtain ⟨serial, rfl, rfl⟩ := eq_of_hookCall? hhook
      exact (uniform_runAssociated ih r factory traits overrides strategy).imp fun _ _ h => by
        simp [constructs] at h

end TraitFactory
