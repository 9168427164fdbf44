import TraitFactory.Proofs.Spelling

/-!
# Requests in two spellings

Two requests that ask for the same and only write names in different ways come to the same and leave
the same world: whatever they declare, compile, run or read of a context.
-/

namespace TraitFactory

open Action

/-! ## 1. Commands and requests -/

/-- Something holds whenever an action begins that is done so many times. -/
def Action.Throughout (a : Action Value) (P : World → Prop) : Nat → World → Prop
  | 0, _ => True
  | n + 1, w => P w ∧ ∀ v w', a.execute w = (.ok v, w') → Throughout a P n w'

/-- **A command in two spellings.** Lists of names and tables under names are spelled in two ways in
the world in which they are read: a run reads its overrides when its plan has been compiled, and
each of several runs reads them anew. A method named for a strategy packs its traits and overrides
into new objects, which a run takes in either spelling. -/
inductive Command.Respelled (host : Host) (w : World) : Command → Command → Prop
  | same (c : Command) : Respelled host w c c
  | defineFactory (registry : Option Value) (model : Value) {name name' parent parent' : Value}
      {traits traits' : Option Value} (hname : name.SameName name')
      (hparent : parent.SameName parent') (htraits : w.SameNames traits traits') :
      Respelled host w (.defineFactory registry name model parent traits)
        (.defineFactory registry name' model parent' traits')
  | defineTrait (registry : Option Value) {name name' : Value} (hname : name.SameName name') :
      Respelled host w (.defineTrait registry name) (.defineTrait registry name')
  | childFactory (on model : Value) {name name' : Value} {traits traits' : Option Value}
      (hname : name.SameName name') (htraits : w.SameNames traits traits') :
      Respelled host w (.childFactory on name model traits) (.childFactory on name' model traits')
  | localTrait (on : Value) {name name' : Value} (hname : name.SameName name') :
      Respelled host w (.localTrait on name) (.localTrait on name')
  | set (on : Value) (value : Option Value) (computed : Value) {name name' : Value}
      (hname : name.SameName name') :
      Respelled host w (.set on name value computed) (.set on name' value computed)
  | associate (on : Value) (strategy : Option Value) {name name' factory factory' : Value}
      {traits traits' overrides overrides' : Option Value} (hname : name.SameName name')
      (hfactory : factory.SameName factory') (htraits : w.SameNames traits traits')
      (hoverrides : ∀ names w', (elementsOf traits).execute w = (.ok names, w') →
        w'.SameTable Value.SameText overrides overrides') :
      Respelled host w (.associate on name factory traits strategy overrides)
        (.associate on name' factory' traits' strategy overrides')
  | apply (on : Value) {traits traits' : Value}
      (htraits : w.SameNames (some traits) (some traits')) :
      Respelled host w (.apply on traits) (.apply on traits')
  | registerTrait (registry : Option Value) (definition : Value) {scope scope' name name' : Value}
      (hscope : scope.SameScope scope') (hname : name.SameName name') :
      Respelled host w (.registerTrait registry scope name definition)
        (.registerTrait registry scope' name' definition)
  | resolveTrait (registry : Option Value) {scope scope' ref ref' : Value}
      (hscope : scope.SameScope scope') (href : ref.SameName ref') :
      Respelled host w (.resolveTrait registry scope ref) (.resolveTrait registry scope' ref')
  | factory (registry : Option Value) {ref ref' : Value} (href : ref.SameName ref') :
      Respelled host w (.factory registry ref) (.factory registry ref')
  | declare (definition value : Value) {name name' : Value} (hname : name.SameName name') :
      Respelled host w (.declare definition name value) (.declare definition name' value)
  | applyTrait (definition : Value) {ref ref' : Value} (href : ref.SameName ref') :
      Respelled host w (.applyTrait definition ref) (.applyTrait definition ref')
  | compile (registry : Option Value) {factory factory' : Value} {traits traits' : Option Value}
      (hfactory : factory.SameName factory') (htraits : w.SameNames traits traits') :
      Respelled host w (.compile registry factory traits) (.compile registry factory' traits')
  | compileWith (runner : Option Value) {factory factory' : Value} {traits traits' : Option Value}
      (hfactory : factory.SameName factory') (htraits : w.SameNames traits traits') :
      Respelled host w (.compileWith runner factory traits) (.compileWith runner factory' traits')
  | applyOverrides (plan : Value) (constructor persistor : Option Value)
      {overrides overrides' : Option Value}
      (hoverrides : w.SameTable Value.SameName overrides overrides') :
      Respelled host w (.applyOverrides plan overrides constructor persistor)
        (.applyOverrides plan overrides' constructor persistor)
  | declarationIn (plan : Value) {name name' : Value} (hname : name.SameText name') :
      Respelled host w (.declarationIn plan name) (.declarationIn plan name')
  | run (runner : Option Value) (a : RunArguments) {factory' : Value}
      {traits' overrides' : Option Value} (hfactory : a.factory.SameName factory')
      (htraits : w.SameNames a.traits traits')
      (hoverrides : ∀ p w', (performCommand host (.compileWith runner a.factory a.traits)).execute w
        = (.ok p, w') → w'.SameTable Value.SameName a.overrides overrides') :
      Respelled host w (.run runner a)
        (.run runner { a with factory := factory', traits := traits', overrides := overrides' })
  | runMethod (runner : Option Value) (a : RunArguments) {factory' : Value}
      (hfactory : a.factory.SameName factory') :
      Respelled host w (.runMethod runner a) (.runMethod runner { a with factory := factory' })
  | runList (runner : Option Value) (count : Value) (a : RunArguments) {factory' : Value}
      {traits' overrides' : Option Value} (hfactory : a.factory.SameName factory')
      (htraits : w.SameNames a.traits traits')
      (hoverrides : ∀ r w₁ n p w', (runnerArgument runner).execute w = (.ok r, w₁) →
        count.asInt? = some n →
        (performCommand host (.compileWith runner a.factory a.traits)).execute w
          = (.ok (.plan p), w') →
        (evaluateRun host r p (runInput a)).Throughout
          (·.SameTable Value.SameName a.overrides overrides') n.toNat w') :
      Respelled host w (.runList runner count a)
        (.runList runner count
          { a with factory := factory', traits := traits', overrides := overrides' })
  | runListMethod (runner : Option Value) (count : Value) (a : RunArguments) {factory' : Value}
      (hfactory : a.factory.SameName factory') :
      Respelled host w (.runListMethod runner count a)
        (.runListMethod runner count { a with factory := factory' })
  | evaluate (runner : Option Value) (bare : Bool) (plan strategy : Value)
      (constructor persistor : Option Value) {overrides overrides' : Option Value}
      (hoverrides : w.SameTable Value.SameName overrides overrides') :
      Respelled host w (.evaluate runner bare plan strategy overrides constructor persistor)
        (.evaluate runner bare plan strategy overrides' constructor persistor)

/-- **A request in two spellings.** The parts of a context are asked for by names. -/
inductive Request.Respelled (host : Host) (w : World) : Request → Request → Prop
  | same (r : Request) : Respelled host w r r
  | command {c c' : Command} (h : c.Respelled host w c') :
      Respelled host w (.command c) (.command c')
  | newAssociation (strategy : Option Value) {factory factory' : Value}
      {traits traits' overrides overrides' : Option Value}
      (hfactory : factory.SameName factory') (htraits : w.SameNames traits traits')
      (hoverrides : ∀ names w', (elementsOf traits).execute w = (.ok names, w') →
        w'.SameTable Value.SameText overrides overrides') :
      Respelled host w (.newAssociation factory traits strategy overrides)
        (.newAssociation factory' traits' strategy overrides')
  | getItem (e : EvaluationId) {key key' : Value} (hkey : key.SameName key') :
      Respelled host w (.getItem (.context e) key) (.getItem (.context e) key')
  | contains (e : EvaluationId) {key key' : Value} (hkey : key.SameName key') :
      Respelled host w (.contains (.context e) key) (.contains (.context e) key')
  | get (serial : Nat) (e : EvaluationId) (rest : List Value) {key key' : Value}
      (hkey : key.SameName key') :
      Respelled host w (.call (.method serial (.context e) "get") (key :: rest) [])
        (.call (.method serial (.context e) "get") (key' :: rest) [])

/-- **The same outcome.** Where a value is refused by none of the library's own failures, what is
said of it may show how its name was written. -/
inductive SameOutcome : Except Failure Value → Except Failure Value → Prop
  | same (x : Except Failure Value) : SameOutcome x x
  | badValue (m m' : String) :
      SameOutcome (.error (.raise (.badValue m))) (.error (.raise (.badValue m')))

/-- The same outcome in the same world. -/
def SameStep (s s' : Except Failure Value × World) : Prop := SameOutcome s.1 s'.1 ∧ s'.2 = s.2

/-! ## 2. Each step -/

/-- The frame of what leaves every object as it is. -/
def Frame.heap : Frame :=
  ⟨fun w w' => w'.heap = w.heap, fun _ => rfl, fun h h' => h'.trans h⟩

section Steps

variable {host : Host} {w : World}

theorem sameStep_of_concur {a a' : Action Value} (h : Concur Eq a a' w) :
    SameStep (a.execute w) (a'.execute w) := by
  rw [execute_eq_of_concur h]
  exact ⟨.same _, rfl⟩

theorem sameStep_of_eq {a a' : Action Value} (h : a = a') : SameStep (a.execute w) (a'.execute w) :=
  sameStep_of_concur (concur_of_eq h w)

/-! ### Arguments of commands -/

theorem keeps_registryArgument {F : Frame} (registry : Option Value) :
    Keeps F (registryArgument registry) := by
  unfold registryArgument
  split
  · exact keeps_pure _
  · exact keeps_noAttribute
  · refine keeps_bind keeps_get fun w => keeps_bind (keeps_getRunner _) fun runner => ?_
    split <;> first | exact keeps_pure _ | exact keeps_noAttribute

theorem keeps_planArgument {F : Frame} (v : Value) : Keeps F (planArgument v) := by
  unfold planArgument
  split <;> first | exact keeps_pure _ | exact keeps_noAttribute

theorem keeps_evaluatorOf {F : Frame} (r : RunnerId) : Keeps F (evaluatorOf r) := by
  refine keeps_bind (keeps_getRunner r) fun runner => ?_
  split <;> first | exact keeps_pure _ | exact keeps_noAttribute

theorem keeps_cacheSetting {F : Frame} (r : RunnerId) : Keeps F (cacheSetting r) := by
  refine keeps_bind (keeps_getRunner r) fun runner => ?_
  split
  · exact keeps_bind (keeps_getSettings _) fun _ => keeps_pure _
  · exact keeps_noAttribute

/-- The session's own runner comes into force without a change of any object. -/
theorem keeps_runnerArgument (runner : Option Value) : Keeps .heap (runnerArgument runner) := by
  unfold runnerArgument
  split
  · exact keeps_pure _
  · exact keeps_noAttribute
  · refine keeps_bind keeps_get fun w => ?_
    dsimp only
    split
    · refine keeps_bind (keeps_registryOf _) fun r => ?_
      refine keeps_bind (keeps_cacheSetting _) fun flag => ?_
      refine keeps_bind ?_ fun _ => keeps_bind (keeps_modify fun _ => rfl) fun _ => keeps_pure _
      exact keeps_bind keeps_get fun w => keeps_bind (keeps_resolverOf r) fun _ =>
        keeps_modify fun _ => rfl
    · exact keeps_pure _

theorem keeps_evaluatorArgument (runner : Option Value) (bare : Bool) :
    Keeps .heap (evaluatorArgument runner bare) := by
  unfold evaluatorArgument
  split
  · refine keeps_bind (fun _ => rfl) fun s => keeps_bind (keeps_getSettings _) fun settings => ?_
    refine keeps_bind ?_ fun first => fun _ => rfl
    unfold firstId
    split
    · exact keeps_pure _
    · split <;> first | exact keeps_pure _ | exact keeps_wrongType
  · exact keeps_bind (keeps_runnerArgument runner) fun r => keeps_evaluatorOf r

/-! ### Declaring -/

/-- What declares an attribute by one name may refuse what it is given in words that show the name,
and only then. -/
theorem sameStep_setAttribute (on : Value) {name name' : Value} (h : name.SameName name')
    (value : Option Value) (computed : Value) :
    SameStep ((setAttribute on name value computed).execute w)
      ((setAttribute on name' value computed).execute w) := by
  by_cases hboth : value.isNone = computed.hook?.isNone
  · have hrefuse : ∀ name w (k : PUnit → Action Value), ∃ m,
        (plainText name >>= fun s => fail (.valueOrComputed s) >>= k).execute w =
          (.error (.raise (.badValue m)), w) := by
      intro name w k
      rcases hshown : w.written name.behind View.plainText with cause | shown
      · have hcause : cause = .unwritable := by
          rw [World.written] at hshown
          split at hshown
          · cases hshown
          · exact (Except.error.inj hshown).symm
        have hfails : (plainText name).execute w = (.error (.raise .unwritable), w) := by
          rw [plainText, written, execute_bind_ok (execute_get w), hshown, hcause]
          rfl
        exact ⟨_, execute_bind_error hfails⟩
      · have hshows : (plainText name).execute w = (.ok shown, w) := by
          rw [plainText, written, execute_bind_ok (execute_get w), hshown]
          rfl
        exact ⟨_, execute_bind_ok hshows⟩
    rw [setAttribute, setAttribute]
    rcases hd : (declaredOn on).execute w with ⟨e | d, w'⟩
    · rw [execute_bind_error hd, execute_bind_error hd]
      exact ⟨.same _, rfl⟩
    · rw [execute_bind_ok hd, execute_bind_ok hd, if_pos hboth, if_pos hboth]
      obtain ⟨m, hm⟩ := hrefuse name w' _
      obtain ⟨m', hm'⟩ := hrefuse name' w' _
      rw [hm, hm']
      exact ⟨.badValue m m', rfl⟩
  · refine sameStep_of_eq ?_
    simp only [setAttribute, if_neg hboth, declare_congr _ h, declareNew_congr _ h]

/-! ### Running -/

theorem heap_of_execute {α : Type} {a : Action α} (ha : Keeps .heap a) {x : α} {w' : World}
    (h : a.execute w = (.ok x, w')) : w'.heap = w.heap := by
  have hheap := ha w
  rw [h] at hheap
  exact hheap

/-- The compilation with which a run begins. -/
theorem execute_compileWith {runner : Option Value} {r : RunnerId} {w₁ w₂ w' : World}
    {reg : RegistryId} {factory : Value} {traits : Option Value} {p : PlanId}
    (hr : (runnerArgument runner).execute w = (.ok r, w₁))
    (hreg : (registryOf r).execute w₁ = (.ok reg, w₂))
    (hp : (compile reg factory traits).execute w₂ = (.ok p, w')) :
    (performCommand host (.compileWith runner factory traits)).execute w = (.ok (.plan p), w') := by
  rw [performCommand, execute_bind_ok hr, execute_bind_ok hreg, execute_bind_ok hp]
  rfl

theorem concur_evaluateRun (r : RunnerId) (p : PlanId) (a : RunArguments) {factory' : Value}
    {traits' overrides' : Option Value} (h : w.SameTable Value.SameName a.overrides overrides') :
    Concur Eq (evaluateRun host r p (runInput a))
      (evaluateRun host r p (runInput
        { a with factory := factory', traits := traits', overrides := overrides' })) w :=
  concur_bind_read (keeps_evaluatorOf r) fun ev => concur_evaluate host ev p a.strategy h _ _

/-- **A run in two spellings.** -/
theorem concur_run (runner : Option Value) (a : RunArguments) {factory' : Value}
    {traits' overrides' : Option Value} (hfactory : a.factory.SameName factory')
    (htraits : w.SameNames a.traits traits')
    (hoverrides : ∀ p w', (performCommand host (.compileWith runner a.factory a.traits)).execute w
      = (.ok p, w') → w'.SameTable Value.SameName a.overrides overrides') :
    Concur Eq (performCommand host (.run runner a)) (performCommand host (.run runner
      { a with factory := factory', traits := traits', overrides := overrides' })) w := by
  refine concur_bind_left fun r w₁ hr => concur_bind_left fun reg w₂ hreg => ?_
  have hheap : w₂.heap = w.heap :=
    (heap_of_execute (keeps_registryOf r) hreg).trans
      (heap_of_execute (keeps_runnerArgument runner) hr)
  refine concur_bind (concur_compile reg hfactory (htraits.of_heap hheap)) fun p p' w₃ hp hrun => ?_
  subst hp
  exact concur_evaluateRun r p a (hoverrides _ _ (execute_compileWith hr hreg hrun))

theorem concur_replicate {a a' : Action Value} {P : World → Prop}
    (h : ∀ w, P w → Concur Eq a a' w) (n : Nat) (hP : a.Throughout P n w) :
    Concur Eq ((List.replicate n ()).mapM fun _ => a) ((List.replicate n ()).mapM fun _ => a')
      w := by
  induction n generalizing w with
  | zero => exact concur_refl (fun _ => rfl) _ w
  | succ n ih =>
    rw [List.replicate_succ, List.mapM_cons, List.mapM_cons]
    refine concur_bind (h w hP.1) fun v v' w₁ hv hrun => ?_
    refine concur_bind (ih (hP.2 v w₁ hrun)) fun vs vs' w₂ hvs _ => ?_
    rw [hv, hvs]
    exact concur_refl (fun _ => rfl) _ w₂

/-- **Several runs in two spellings.** -/
theorem concur_runList (runner : Option Value) (count : Value) (a : RunArguments) {factory' : Value}
    {traits' overrides' : Option Value} (hfactory : a.factory.SameName factory')
    (htraits : w.SameNames a.traits traits')
    (hoverrides : ∀ r w₁ n p w', (runnerArgument runner).execute w = (.ok r, w₁) →
      count.asInt? = some n →
      (performCommand host (.compileWith runner a.factory a.traits)).execute w
        = (.ok (.plan p), w') →
      (evaluateRun host r p (runInput a)).Throughout
        (·.SameTable Value.SameName a.overrides overrides') n.toNat w') :
    Concur Eq (performCommand host (.runList runner count a)) (performCommand host
      (.runList runner count
        { a with factory := factory', traits := traits', overrides := overrides' })) w := by
  refine concur_bind_left fun r w₁ hr => ?_
  refine concur_bind_read (keeps_requireCount count) fun _ => concur_bind_left fun reg w₂ hreg => ?_
  have hheap : w₂.heap = w.heap :=
    (heap_of_execute (keeps_registryOf r) hreg).trans
      (heap_of_execute (keeps_runnerArgument runner) hr)
  refine concur_bind (concur_compile reg hfactory (htraits.of_heap hheap)) fun p p' w₃ hp hrun => ?_
  subst hp
  split
  · exact concur_refl (fun _ => rfl) _ w₃
  · rename_i n hn
    have hthroughout := hoverrides r w₁ n p w₃ hr hn (execute_compileWith hr hreg hrun)
    refine concur_bind (concur_replicate (fun w h => concur_evaluateRun r p a h) _ hthroughout)
      fun vs vs' w₄ hvs _ => ?_
    rw [hvs]
    exact concur_refl (fun _ => rfl) _ w₄

/-! ### Methods named for a strategy -/

/-- A method passes its factory on as it is. -/
theorem methodArguments_factory (a : RunArguments) (factory : Value) :
    methodArguments { a with factory := factory } =
      (fun input => { input with factory := factory }) <$> methodArguments a := by
  have hinput : ∀ s (input : RunInput) keywords,
      methodInput s { input with factory := factory } keywords =
        (fun input => { input with factory := factory }) <$> methodInput s input keywords := by
    intro s input keywords
    unfold methodInput
    dsimp only
    split
    · rfl
    · cases s <;> simp only [map_bind, map_pure]
  have hread : runInput { a with factory := factory } =
      { runInput a with factory := factory } := rfl
  simp only [methodArguments, map_bind, hread]
  exact congrArg (methodStrategy a.strategy >>= ·) <| funext fun s => by
    refine congrArg (elementsOf a.traits >>= ·) <| funext fun traits => ?_
    refine congrArg (Parts.tuple traits >>= ·) <| funext fun pack => ?_
    exact congrArg (keywordsOf a.overrides >>= ·) <| funext fun keywords =>
      hinput s { runInput a with traits := some pack } keywords

theorem concur_runFactory (r : RunnerId) (input : RunInput) {factory' : Value}
    (h : input.factory.SameName factory') :
    Concur Eq (run host r input) (run host r { input with factory := factory' }) w :=
  concur_bind_read (keeps_registryOf r) fun reg =>
    concur_bind (concur_compile reg h (.same _)) fun _ _ w' hp _ => concur_of_eq (hp ▸ rfl) w'

theorem concur_runListFactory (r : RunnerId) (count : Value) (input : RunInput) {factory' : Value}
    (h : input.factory.SameName factory') :
    Concur Eq (runList host r count input) (runList host r count { input with factory := factory' })
      w :=
  concur_bind_read (keeps_requireCount count) fun _ => concur_bind_read (keeps_registryOf r) fun reg =>
    concur_bind (concur_compile reg h (.same _)) fun _ _ w' hp _ => concur_of_eq (hp ▸ rfl) w'

theorem concur_methodArguments (a : RunArguments) {factory' : Value} {f : RunInput → Action Value}
    (h : ∀ input w, input.factory = a.factory →
      Concur Eq (f input) (f { input with factory := factory' }) w) :
    Concur Eq (methodArguments a >>= f) (methodArguments { a with factory := factory' } >>= f)
      w := by
  have hbind : methodArguments { a with factory := factory' } >>= f =
      methodArguments a >>= fun input => f { input with factory := factory' } := by
    rw [methodArguments_factory, ← bind_pure_comp, bind_assoc]
    exact congrArg (methodArguments a >>= ·) <| funext fun input => pure_bind _ _
  rw [hbind]
  refine concur_bind_left fun input w' hinput => h input w' ?_
  change (methodArguments { a with factory := a.factory }).execute w = _ at hinput
  rw [methodArguments_factory, ← bind_pure_comp] at hinput
  obtain ⟨given, w₁, _, hgiven⟩ := ok_of_execute_bind hinput
  cases hgiven
  rfl

/-! ### All commands and requests -/

/-- **Every command takes names in any spelling.** -/
theorem sameStep_performCommand {c c' : Command} (h : c.Respelled host w c') :
    SameStep ((performCommand host c).execute w) ((performCommand host c').execute w) := by
  cases h with
  | same c => exact ⟨.same _, rfl⟩
  | defineFactory registry model hname hparent htraits =>
    exact sameStep_of_concur <| concur_bind_read (keeps_registryArgument registry) fun r =>
      concur_defineFactory r hname model hparent htraits
  | defineTrait registry hname =>
    exact sameStep_of_concur <| concur_bind_read (keeps_registryArgument registry) fun r =>
      concur_of_eq (defineTrait_congr r hname) w
  | childFactory on model hname htraits =>
    exact sameStep_of_concur (concur_childFactory on hname model htraits)
  | localTrait on hname => exact sameStep_of_eq (localTrait_congr on hname)
  | set on value computed hname => exact sameStep_setAttribute on hname value computed
  | associate on strategy hname hfactory htraits hoverrides =>
    exact sameStep_of_concur (concur_associate on hname hfactory htraits strategy hoverrides)
  | apply on htraits => exact sameStep_of_concur (concur_apply on htraits)
  | registerTrait registry definition hscope hname =>
    exact sameStep_of_eq (by simp only [performCommand, registerTrait_congr _ _ hscope hname])
  | resolveTrait registry hscope href =>
    exact sameStep_of_eq (by simp only [performCommand, resolveTraitValue_congr _ hscope href])
  | factory registry href =>
    exact sameStep_of_eq (by simp only [performCommand, findFactoryValue_congr _ href])
  | declare definition value hname =>
    exact sameStep_of_eq (by simp only [performCommand, declare_congr _ hname])
  | applyTrait definition href =>
    exact sameStep_of_eq (by simp only [performCommand, applyTrait_congr _ href])
  | compile registry hfactory htraits =>
    exact sameStep_of_concur <| concur_bind_read (keeps_registryArgument registry) fun r =>
      concur_bind (concur_compile r hfactory htraits) fun p p' w' hp _ =>
        concur_of_eq (congrArg (fun p => pure (Value.plan p)) hp) w'
  | compileWith runner hfactory htraits =>
    refine sameStep_of_concur <| concur_bind_left fun r w₁ hr => ?_
    have htraits₁ := htraits.of_heap (heap_of_execute (keeps_runnerArgument runner) hr)
    exact concur_bind_read (keeps_registryOf r) fun reg =>
      concur_bind (concur_compile reg hfactory htraits₁) fun p p' w' hp _ =>
        concur_of_eq (congrArg (fun p => pure (Value.plan p)) hp) w'
  | applyOverrides plan constructor persistor hoverrides =>
    refine sameStep_of_concur <| concur_bind_read (keeps_planArgument plan) fun p => ?_
    refine concur_bind (concur_entriesOf .refl hoverrides) fun es es' w' hes _ => ?_
    rw [applyOverrides_congr p hes]
    exact concur_refl (fun _ => rfl) _ w'
  | declarationIn plan hname =>
    refine sameStep_of_eq ?_
    simp only [performCommand, planDeclaration, hname.asText?]
  | run runner a hfactory htraits hoverrides =>
    exact sameStep_of_concur (concur_run runner a hfactory htraits hoverrides)
  | runMethod runner a hfactory =>
    exact sameStep_of_concur <| concur_bind_left fun r _ _ => concur_methodArguments a
      fun input w hinput => concur_runFactory r input (hinput ▸ hfactory)
  | runList runner count a hfactory htraits hoverrides =>
    exact sameStep_of_concur (concur_runList runner count a hfactory htraits hoverrides)
  | runListMethod runner count a hfactory =>
    exact sameStep_of_concur <| concur_bind_left fun r _ _ => concur_methodArguments a
      fun input w hinput => concur_runListFactory r count input (hinput ▸ hfactory)
  | evaluate runner bare plan strategy constructor persistor hoverrides =>
    refine sameStep_of_concur <| concur_bind_left fun ev w₁ hev => ?_
    have hoverrides₁ := hoverrides.of_heap
      (heap_of_execute (keeps_evaluatorArgument runner bare) hev)
    exact concur_bind_read (keeps_planArgument plan) fun p =>
      concur_evaluate host ev p strategy hoverrides₁ constructor persistor

/-- The contexts of a host can be asked for their parts by names in any spelling. -/
def Host.Fetches (host : Host) : Prop :=
  ∀ serial e key key' rest, Value.SameName key key' →
    host.call (.method serial (.context e) "get") (key :: rest) =
      host.call (.method serial (.context e) "get") (key' :: rest)

theorem fetches_ofDepth (n : Nat) : (Host.ofDepth n).Fetches := by
  intro serial e key key' rest h
  cases n with
  | zero => rfl
  | succ n =>
    have hcall : ∀ key,
        (Host.ofDepth (n + 1)).call (.method serial (.context e) "get") (key :: rest) =
          callBound (Host.ofDepth n) (.context e) "get" (key :: rest) [] := fun _ => rfl
    have hoperation : ∀ key,
        operation? (Host.ofDepth n) (.context e) "get" (key :: rest) [] = none := fun key => by
      cases rest with
      | nil => exact if_pos rfl
      | cons x rest => rfl
    have hown : ∀ key, callOwn (Host.ofDepth n) (.context e) "get" (key :: rest) [] =
        get >>= fun _ => contextFind (Host.ofDepth n) e key (rest.headD .null) := fun _ => rfl
    rw [hcall, hcall, callBound, callBound, hoperation, hoperation, hown, hown,
      contextFind_congr (Host.ofDepth n) e h]
    rfl

/-- **Every request takes names in any spelling.** -/
theorem sameStep_answer (hfetches : host.Fetches) {r r' : Request} (h : r.Respelled host w r') :
    SameStep ((answer host r).execute w) ((answer host r').execute w) := by
  cases h with
  | same r => exact ⟨.same _, rfl⟩
  | command h => exact sameStep_performCommand h
  | newAssociation strategy hfactory htraits hoverrides =>
    have hmade := concur_makeAssociation hfactory htraits strategy hoverrides
    exact sameStep_of_concur <| concur_bind hmade fun a a' w' ha _ => concur_of_eq (ha ▸ rfl) w'
  | getItem e hkey => exact sameStep_of_eq (getItem_context_congr host e hkey)
  | contains e hkey =>
    exact sameStep_of_eq (by simp only [answer, contains_context_congr e hkey])
  | get serial e rest hkey => exact sameStep_of_eq (hfetches serial e _ _ rest hkey)

end Steps

end TraitFactory
