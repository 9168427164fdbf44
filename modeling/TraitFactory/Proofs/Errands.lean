import TraitFactory.Proofs.Numbering

/-!
# Errands

A session asks a runner for one run after another and does other things in between, and so may each
function that is called in a run. What the runs of one runner do is told from within; of all else it
is told only if it does more to evaluation than to add to it. Hosts are stacked level upon level,
and the books are kept on each of them.
-/

namespace TraitFactory

open Action Recorded

/-! ## 1. Runs of a runner -/

namespace Action

variable (host : Host) (r : RunnerId)

/-- A run compiles, and then it evaluates. -/
theorem run_eq (input : RunInput) : run host r input =
    (do compile (← registryOf r) input.factory input.traits) >>= fun p =>
      evaluateRun host r p input := by
  simp only [run, bind_assoc]

theorem runList_eq (count : Value) (input : RunInput) :
    runList host r count input = requireCount count >>= fun _ =>
      (do compile (← registryOf r) input.factory input.traits) >>= fun p =>
        match count.asInt? with
        | none => wrongType
        | some n => (List.replicate n.toNat ()).mapM (fun _ => evaluateRun host r p input) >>=
            fun results => alloc (.list results) :=
  congrArg (requireCount count >>= ·) (funext fun _ => (bind_assoc ..).symm)

end Action

namespace Recorded

variable {α : Type} (O : Observed) (r : RunnerId)

/-- What does more to evaluation than to add to it is told to meddle. -/
def guarded (a : Action α) : Recorded α := fun w =>
  (a.execute w, if w.Added (a.execute w).2 then [] else [.meddles])

/-- The recorded evaluation of a plan as a run asks. -/
def evaluateRun (p : PlanId) (input : RunInput) : Recorded Value := do
  let ev ← silent (evaluatorOf r)
  evaluate O none ev p input.strategy input.overrides input.constructor input.persistor

/-- The recorded run. -/
def run (input : RunInput) : Recorded Value := do
  let p ← silent (do compile (← registryOf r) input.factory input.traits)
  evaluateRun O r p input

/-- The recorded runs of one plan. -/
def runList (count : Value) (input : RunInput) : Recorded Value := do
  silent (requireCount count)
  let p ← silent (do compile (← registryOf r) input.factory input.traits)
  match count.asInt? with
  | none => silent wrongType
  | some n =>
    let results ← (List.replicate n.toNat ()).mapM fun _ => evaluateRun O r p input
    silent (alloc (.list results))

variable {O r}

theorem records_guarded (a : Action α) : Records (guarded a) a := fun _ => rfl

theorem records_evaluateRun (p : PlanId) (input : RunInput) :
    Records (evaluateRun O r p input) (Action.evaluateRun O.host r p input) :=
  records_silent_bind fun _ => records_evaluate none _ _ _ _ _ _

theorem records_run (input : RunInput) :
    Records (run O r input) (Action.run O.host r input) := by
  rw [run_eq]
  exact records_silent_bind fun p => records_evaluateRun p input

theorem records_runList (count : Value) (input : RunInput) :
    Records (runList O r count input) (Action.runList O.host r count input) := by
  rw [runList_eq]
  refine records_silent_bind fun _ => records_silent_bind fun p => ?_
  cases count.asInt? with
  | none => exact records_silent _
  | some n =>
    exact (records_mapM (fun _ => records_evaluateRun p input) _).bind fun _ => records_silent _

variable {spared : Plan → Prop} {c : Wiring} {w : World}

theorem books_guarded {ev : EvaluatorId} (a : Action α) :
    Books spared ev .whole (fun _ _ => True) (guarded a) w := by
  intro _ hmild
  rw [guarded] at hmild ⊢
  by_cases hadded : w.Added (a.execute w).2
  · rw [if_pos hadded]
    exact ⟨[], .nil hadded.unspent, fun _ _ => trivial⟩
  · rw [if_neg hadded] at hmild
    exact absurd (hmild _ List.mem_cons_self) Bool.false_ne_true

section Running

variable (hO : O.Books spared c) (hr : c.runner = some r)

include hO hr

theorem books_evaluateRun (hwired : w.Wired c) (p : PlanId) {input : RunInput}
    (hinput : input.overrides.isExternal) :
    Books spared c.evaluator .whole (fun _ _ => True) (evaluateRun O r p input) w := by
  rw [Books, evaluateRun, silent_bind_ok (execute_evaluatorOf hwired hr)]
  exact books_evaluate hO none (fun _ _ h => by cases h) hwired p _ hinput _ _

omit hO hr in
theorem saves_compile (input : RunInput) :
    Saves (do compile (← registryOf r) input.factory input.traits) :=
  keeps_bind (keeps_registryOf r) fun _ => (idles_compile _ _ _).saves

theorem books_run (hwired : w.Wired c) {input : RunInput} (hinput : input.overrides.isExternal) :
    Books spared c.evaluator .whole (fun _ _ => True) (run O r input) w :=
  books_silent_bind (saves_compile input) fun p _ _ hremains =>
    books_evaluateRun hO hr (hwired.remains hremains) p hinput

theorem books_runList (hwired : w.Wired c) (count : Value) {input : RunInput}
    (hinput : input.overrides.isExternal) :
    Books spared c.evaluator .whole (fun _ _ => True) (runList O r count input) w := by
  have hcount : Idles (requireCount count) := keeps_requireCount count
  refine books_silent_bind hcount.saves fun _ w₁ _ h₁ => ?_
  refine books_silent_bind (saves_compile input) fun p w₂ _ h₂ => ?_
  have hwired₂ := hwired.remains (h₁.trans h₂)
  split
  · exact books_saves keeps_wrongType
  · refine Books.bind (books_mapM (fun _ _ _ h _ => h) _ fun _ _ w₃ h₃ =>
      books_evaluateRun hO hr (hwired₂.remains h₃) p hinput) fun _ _ _ _ => ?_
    exact books_saves (keeps_alloc _)

end Running

end Recorded

/-! ## 2. Errands -/

/-- **What may be asked for** within a session: to read an attribute of an evaluation, to call
something, or to run plans. -/
inductive Errand where
  | read (e : EvaluationId) (name : String)
  | call (f : Value) (arguments : List Value)
  | run (r : RunnerId) (input : RunInput)
  | runList (r : RunnerId) (count : Value) (input : RunInput)
  | evaluate (ev : EvaluatorId) (p : PlanId) (input : RunInput)

namespace World

/-- The evaluator of a runner. -/
def evaluatorOf? (w : World) (r : RunnerId) : Option EvaluatorId :=
  match (w.runner? r).map Runner.evaluator with
  | some (.evaluator ev) => some ev
  | _ => none

/-- What the evaluator of a runner says about whether associations follow their surroundings. -/
def follows? (w : World) (r : RunnerId) : Option Value :=
  match ((w.evaluatorOf? r).bind w.evaluator?).map Evaluator.settings with
  | some (.settings s) => (w.settingsAt? s).map (·.useParentStrategy)
  | _ => none

/-- Whether an evaluation is one that a runner runs. -/
def serves (w : World) (r : RunnerId) (e : EvaluationId) : Bool :=
  match w.evaluation? e with
  | some ⟨_, _, .keyword (.strategy _), .method _ (.runner r') hook, follow, .own _, .own _, none,
      _⟩ =>
    r' = r && hook = associationHook && w.follows? r = some follow
  | _ => false

variable {w : World} {c : Wiring} {r : RunnerId} {e : EvaluationId}

theorem evaluatorOf?_of_wired (h : w.Wired c) (hr : c.runner = some r) :
    w.evaluatorOf? r = some c.evaluator := by
  obtain ⟨R, hR, hevaluator⟩ := h.runner r hr
  rw [World.evaluatorOf?, hR, Option.map_some, hevaluator]

/-- **What a runner runs** follows its wiring. -/
theorem Wired.runs (h : w.Wired c) (hr : c.runner = some r) (hserves : w.serves r e) :
    ∃ s, w.Runs c s e := by
  obtain ⟨E, hE, hsettings, _⟩ := h.evaluator
  obtain ⟨S, hS, hfollows⟩ := h.settings
  have hfollow : w.follows? r = some S.useParentStrategy := by
    rw [follows?, evaluatorOf?_of_wired h hr, Option.bind_some, hE, Option.map_some, hsettings]
    exact congrArg (Option.map (·.useParentStrategy)) hS
  unfold serves at hserves
  split at hserves
  · rename_i p plan s serial r' hook follow t active extras hfound
    simp only [Bool.and_eq_true, decide_eq_true_eq] at hserves
    obtain ⟨⟨rfl, rfl⟩, hsame⟩ := hserves
    cases Option.some.inj (hfollow.symm.trans hsame)
    have hhook : c.Hook (.method serial (.runner r') associationHook) := by
      rw [Wiring.Hook, hr]
      exact ⟨serial, rfl⟩
    let E : Evaluation :=
      ⟨p, plan, .keyword (.strategy s), .method serial (.runner r') associationHook,
        S.useParentStrategy, .own t, .own active, none, extras⟩
    exact ⟨s, h, E, t, active, hfound, rfl, rfl, hfollows, hhook⟩
  · cases hserves

end World

namespace Errand

/-- **What it is to do an errand.** -/
def action (host : Host) : Errand → Action Value
  | .read e name => Action.read host e name
  | .call f arguments => host.call f arguments
  | .run r input => Action.run host r input
  | .runList r count input => Action.runList host r count input
  | .evaluate ev p input =>
    Action.evaluate host ev p input.strategy input.overrides input.constructor input.persistor

/-- Whether an errand is one that a runner is to do, or a plain call. -/
def isOwn (w : World) (r : RunnerId) : Errand → Bool
  | .read e _ => w.serves r e
  | .call f arguments => (hookCall? f arguments).isNone
  | .run r' input | .runList r' _ input => r' = r && input.overrides.isExternal
  | .evaluate ev _ input => w.evaluatorOf? r = some ev && input.overrides.isExternal

/-- What is told of an errand that is a runner's own. -/
def told (O : Observed) : Errand → Recorded Value
  | .read e name => Recorded.read O e name
  | .call f arguments => O.call f arguments
  | .run r input => Recorded.run O r input
  | .runList r count input => Recorded.runList O r count input
  | .evaluate ev p input =>
    Recorded.evaluate O none ev p input.strategy input.overrides input.constructor input.persistor

/-- **What is told of an errand.** -/
def perform (O : Observed) (r : RunnerId) (errand : Errand) : Recorded Value := do
  if errand.isOwn (← silent get) r then errand.told O else guarded (errand.action O.host)

variable {O : Observed} {r : RunnerId} {spared : Plan → Prop} {c : Wiring} {w : World}

theorem records_told (errand : Errand) : Records (errand.told O) (errand.action O.host) := by
  cases errand with
  | read e name => exact records_read e name
  | call f arguments => exact O.records_call f arguments
  | run r input => exact records_run input
  | runList r count input => exact records_runList count input
  | evaluate ev p input => exact records_evaluate none ev p _ _ _ _

theorem records_perform (errand : Errand) :
    Records (errand.perform O r) (errand.action O.host) := fun w => by
  show ((if errand.isOwn w r then errand.told O else guarded (errand.action O.host)) w).1 = _
  split
  · exact records_told errand w
  · exact records_guarded _ w

/-- **The books of an errand.** -/
theorem books_perform (hO : O.Books spared c) (hr : c.runner = some r) (hwired : w.Wired c)
    (errand : Errand) :
    Books spared c.evaluator .whole (fun _ _ => True) (errand.perform O r) w := by
  refine books_get_bind ?_
  split
  · rename_i hown
    cases errand with
    | read e name =>
      obtain ⟨s, hruns⟩ := hwired.runs hr hown
      exact (books_read hO hruns name).imp fun _ _ _ => trivial
    | call f arguments => exact hO.call f arguments w (Option.isNone_iff_eq_none.mp hown) hwired
    | run r' input =>
      simp only [isOwn, Bool.and_eq_true, decide_eq_true_eq] at hown
      obtain ⟨rfl, hinput⟩ := hown
      exact books_run hO hr hwired hinput
    | runList r' count input =>
      simp only [isOwn, Bool.and_eq_true, decide_eq_true_eq] at hown
      obtain ⟨rfl, hinput⟩ := hown
      exact books_runList hO hr hwired count hinput
    | evaluate ev p input =>
      simp only [isOwn, Bool.and_eq_true, decide_eq_true_eq] at hown
      obtain ⟨hev, hinput⟩ := hown
      cases Option.some.inj ((World.evaluatorOf?_of_wired hwired hr).symm.trans hev)
      exact books_evaluate hO none (fun _ _ h => by cases h) hwired p _ hinput _ _
  · exact books_guarded _

end Errand

/-! ## 3. Sessions -/

/-- **What is done in a session**, or by a function that is called: it ends, or it changes the world
and goes on with what it has found there, or it does an errand and goes on with what comes of it. -/
inductive Activity where
  | ends (outcome : Except Failure Value)
  | acts (change : World → World) (next : World → Activity)
  | does (errand : Errand) (next : Except Failure Value → Activity)

namespace Activity

def run (host : Host) : Activity → Action Value
  | .ends outcome => Action.liftExcept outcome
  | .acts change next => do
    let w ← get
    set (change w)
    (next w).run host
  | .does errand next => do
    let outcome ← attempt (errand.action host)
    (next outcome).run host

/-- What is told of it, from within where a runner is asked. -/
def perform (O : Observed) (r : RunnerId) : Activity → Recorded Value
  | .ends outcome => silent (Action.liftExcept outcome)
  | .acts change next => do
    let w ← silent get
    guarded (set (change w))
    (next w).perform O r
  | .does errand next => do
    let outcome ← (errand.perform O r).attempt
    (next outcome).perform O r

variable {O : Observed} {r : RunnerId} {spared : Plan → Prop} {c : Wiring} {w : World}

theorem records_perform (activity : Activity) :
    Records (activity.perform O r) (activity.run O.host) := by
  induction activity with
  | ends outcome => exact records_silent _
  | acts change next ih =>
    exact records_silent_bind fun w => (records_guarded _).bind fun _ => ih w
  | does errand next ih => exact (errand.records_perform.attempt).bind ih

/-- **The books of a session** are kept as those of its errands. -/
theorem books_perform (hO : O.Books spared c) (hr : c.runner = some r) (hwired : w.Wired c)
    (activity : Activity) :
    Books spared c.evaluator .whole (fun _ _ => True) (activity.perform O r) w := by
  induction activity generalizing w with
  | ends outcome => exact books_saves (keeps_liftExcept _)
  | acts change next ih =>
    refine books_get_bind ?_
    exact (books_guarded _).bind fun _ w' hremains _ => ih w (hwired.remains hremains)
  | does errand next ih =>
    exact (errand.books_perform hO hr hwired).attempt.bind fun outcome w' hremains _ =>
      ih outcome (hwired.remains hremains)

end Activity

/-! ## 4. Levels of nesting -/

/-- What functions do, at each level of nesting. -/
abbrev Customs := Nat → Value → List Value → Activity

/-- **The host one level above another**: the hooks of runners run associations there, and functions
do what they do. -/
def Host.atop (host : Host) (activity : Value → List Value → Activity) : Host :=
  ⟨fun f arguments =>
    match hookCall? f arguments with
    | some (r, factory, traits, overrides, strategy) =>
      Action.runAssociated host r factory traits overrides strategy
    | none => (activity f arguments).run host⟩

/-- **The host for a number of levels of nesting.** -/
def Host.tower (customs : Customs) : Nat → Host
  | 0 => .exhausted
  | n + 1 => (tower customs n).atop (customs n)

namespace Observed

variable (O : Observed) (r : RunnerId) (activity : Value → List Value → Activity)

/-- What is told of a call one level above. -/
def serving (cause : Option (EvaluationId × Association)) (f : Value) (arguments : List Value) :
    Recorded Value :=
  match hookCall? f arguments with
  | some (r', factory, traits, overrides, strategy) =>
    Recorded.runAssociated O cause r' factory traits overrides strategy
  | none => (activity f arguments).perform O r

variable {O r activity} in
theorem records_serving (cause : Option (EvaluationId × Association)) (f : Value)
    (arguments : List Value) : Recorded.Records (serving O r activity cause f arguments)
      ((O.host.atop activity).call f arguments) := by
  rw [serving, Host.atop]
  dsimp only
  rcases hookCall? f arguments with _ | ⟨r', factory, traits, overrides, strategy⟩
  · exact Activity.records_perform _
  · exact Recorded.records_runAssociated cause r' factory traits overrides strategy

/-- **The surroundings one level above** others. -/
def atop : Observed where
  host := O.host.atop activity
  call := serving O r activity none
  associate e a := serving O r activity (some (e, a))
  records_call := records_serving none
  records_associate e a := records_serving (some (e, a))

variable {O r activity} {spared : Plan → Prop} {c : Wiring}

/-- The books of a level are kept by those of the level below. -/
theorem Books.atop (h : O.Books spared c) (hr : c.runner = some r)
    (hleaves : ∀ plan, spared plan → plan.Leaves (O.host.atop activity)) :
    (O.atop r activity).Books spared c where
  call f arguments w hhook hwired := by
    show Recorded.Books _ _ _ _ (serving O r activity none f arguments) w
    rw [serving, hhook]
    exact Activity.books_perform h hr hwired _
  associate e a serial r' factory traits o strategy w hwired hr' := by
    exact books_runAssociated h (some (e, a)) (fun _ _ heq => by cases heq; rfl) hwired hr'
      factory traits strategy o
  leaves := hleaves

/-- Surroundings with as many levels. -/
def tower (customs : Customs) (r : RunnerId) : Nat → Observed
  | 0 => .silent .exhausted
  | n + 1 => (tower customs r n).atop r (customs n)

theorem host_tower (customs : Customs) (r : RunnerId) (n : Nat) :
    (tower customs r n).host = .tower customs n := by
  induction n with
  | zero => rfl
  | succ n ih => exact congrArg (Host.atop · (customs n)) ih

/-- **At every level of nesting the books are kept**, whatever functions do. -/
theorem books_tower (customs : Customs) (n : Nat) (hr : c.runner = some r)
    (hspared : ∀ plan, spared plan → ∀ m ≤ n, plan.Leaves (.tower customs m)) :
    (tower customs r n).Books spared c := by
  induction n with
  | zero =>
    have hcall : ∀ {scope} f arguments w, Recorded.Books spared c.evaluator scope
        (fun _ _ => True) (Recorded.silent (Host.exhausted.call f arguments)) w :=
      fun f arguments w => books_saves (keeps_fail _)
    exact ⟨fun f arguments w _ _ => hcall f arguments w,
      fun e a serial r factory traits o strategy w _ _ => hcall _ _ w,
      fun plan hplan => hspared plan hplan 0 (Nat.le_refl 0)⟩
  | succ n ih =>
    have hbelow := ih fun plan hplan m hm => hspared plan hplan m (Nat.le_succ_of_le hm)
    refine hbelow.atop hr fun plan hplan => ?_
    rw [host_tower]
    exact hspared plan hplan (n + 1) (Nat.le_refl _)

end Observed

/-! ## 5. Programs -/

namespace Activity

section Answering

variable {α : Type} (a : Action α) (k : α → Activity) (next : Except Failure Value → Activity)

/-- An action is done, and what it gives is gone on with. -/
def after : Activity :=
  .acts (fun w => (a.execute w).2) fun w =>
    match (a.execute w).1 with
    | .ok x => k x
    | .error failure => next (.error failure)

/-- An action is done, all at once. -/
def act (a : Action Value) : Activity :=
  .acts (fun w => (a.execute w).2) fun w => next (a.execute w).1

end Answering

/-- Whether an attribute that is looked up through a context is one of the context's evaluation. -/
def ownContext (w : World) (e : EvaluationId) : Bool :=
  (w.evaluation? e).any fun E => (E.extras.get? "_evaluation").isNone

/-- What a command has done: where it runs plans, that is an errand. -/
def ofCommand (host : Host) (next : Except Failure Value → Activity) : Command → Activity
  | .run runner a =>
    after (runnerArgument runner) (fun r => .does (.run r (runInput a)) next) next
  | .runMethod runner a =>
    after (runnerArgument runner) (fun r =>
      after (methodArguments a) (fun input => .does (.run r input) next) next) next
  | .runList runner count a =>
    after (runnerArgument runner) (fun r => .does (.runList r count (runInput a)) next) next
  | .runListMethod runner count a =>
    after (runnerArgument runner) (fun r =>
      after (methodArguments a) (fun input => .does (.runList r count input) next) next) next
  | .evaluate runner bare plan strategy overrides constructor persistor =>
    after (evaluatorArgument runner bare) (fun ev =>
      after (planArgument plan) (fun p => .does (.evaluate ev p
        { strategy := strategy, factory := .null, overrides := overrides.getD .null
          constructor := constructor, persistor := persistor }) next) next) next
  | command => act next (performCommand host command)

/-- What a request has done. -/
def ofRequest (host : Host) (next : Except Failure Value → Activity) : Request → Activity
  | .getAttr (.context e) name =>
    .acts id fun w =>
      if w.readsAttribute e name then .does (.read e name) next
      else act next (answer host (.getAttr (.context e) name))
  | .getItem (.context e) key =>
    after (attributeName key) (fun name => .acts id fun w =>
      if ownContext w e then .does (.read e name) next
      else act next (do read host (← evaluationOf e) name)) next
  | .call f arguments keywords =>
    if keywords.isEmpty then .does (.call f arguments) next
    else act next (callWith host f arguments keywords)
  | .command command => ofCommand host next command
  | request => act next (answer host request)

/-- **What a program does.** -/
def ofProgram (host : Host) : Program → Activity
  | .done v => .ends (.ok v)
  | .fail e => .ends (.error e)
  | .ask request k => ofRequest host (fun outcome => ofProgram host (k outcome)) request
  | .define head body k => after (makeFunction head body) (fun f => ofProgram host (k f)) .ends

/-- What a value does that is called: a function does what its program does. -/
def ofCall (host : Host) (f : Value) (arguments : List Value) : Activity :=
  .acts id fun w =>
    match f with
    | .function id =>
      match w.function? id with
      | some g =>
        match boundArguments g arguments with
        | some seen =>
          .acts (fun w => if g.quiet then w
              else ((announce [.text "call", .text g.name, .int seen.length]).execute w).2)
            fun _ => ofProgram host (g.body seen)
        | none => act .ends (callValue host f arguments)
      | none => act .ends (callValue host f arguments)
    | _ => act .ends (callValue host f arguments)

/-- An activity that does what an action does, and goes on with what it came to. -/
def Answers (host : Host) (next : Except Failure Value → Activity) (activity : Activity)
    (a : Action Value) : Prop :=
  ∀ w, (activity.run host).execute w =
    ((next (a.execute w).1).run host).execute (a.execute w).2

section Answering

variable {α : Type} {host : Host} {next : Except Failure Value → Activity}

theorem execute_acts (change : World → World) (next : World → Activity) (w : World) :
    ((acts change next).run host).execute w = ((next w).run host).execute (change w) := rfl

theorem answers_act (a : Action Value) : Answers host next (act next a) a := fun _ => rfl

theorem answers_does {errand : Errand} {a : Action Value} (h : errand.action host = a) :
    Answers host next (.does errand next) a := fun w => by
  subst h
  exact execute_bind_ok (execute_attempt _ w)

theorem answers_after {a : Action α} {k : α → Activity} {f : α → Action Value}
    (hk : ∀ x, Answers host next (k x) (f x)) : Answers host next (after a k next) (a >>= f) :=
  fun w => by
    rw [after, execute_acts]
    rcases ha : a.execute w with ⟨failure | x, w'⟩
    · rw [execute_bind_error ha]
    · rw [execute_bind_ok ha]
      exact hk x w'

/-- Looking at the world first changes nothing. -/
theorem answers_look {look : World → Activity} {a : Action Value}
    (h : ∀ w, ((look w).run host).execute w =
      ((next (a.execute w).1).run host).execute (a.execute w).2) :
    Answers host next (.acts id look) a := fun w => h w

theorem answers_ofCommand (command : Command) :
    Answers host next (ofCommand host next command) (performCommand host command) := by
  cases command with
  | run runner a => exact answers_after fun r => answers_does rfl
  | runMethod runner a => exact answers_after fun r => answers_after fun input => answers_does rfl
  | runList runner count a => exact answers_after fun r => answers_does rfl
  | runListMethod runner count a =>
    exact answers_after fun r => answers_after fun input => answers_does rfl
  | evaluate runner bare plan strategy overrides constructor persistor =>
    exact answers_after fun ev => answers_after fun p => answers_does rfl
  | _ => exact answers_act _

theorem execute_ownEvaluation {w : World} {e : EvaluationId} (h : ownContext w e) :
    (evaluationOf e).execute w = (.ok e, w) := by
  rcases hE : w.evaluation? e with _ | E <;> rw [ownContext, hE] at h
  · cases h
  · exact execute_evaluationOf hE (Option.isNone_iff_eq_none.mp h)

theorem answers_ofRequest (request : Request) :
    Answers host next (ofRequest host next request) (answer host request) := by
  unfold ofRequest
  split
  · rename_i e name
    refine answers_look fun w => ?_
    split
    · rename_i hreads
      have hread : (answer host (.getAttr (.context e) name)).execute w =
          (read host e name).execute w := execute_getAttr_context hreads host
      rw [hread]
      exact answers_does rfl w
    · exact answers_act _ w
  · rename_i e key
    refine answers_after fun name => answers_look fun w => ?_
    split
    · rename_i hown
      have hread : (do read host (← evaluationOf e) name : Action Value).execute w =
          (read host e name).execute w := execute_bind_ok (execute_ownEvaluation hown)
      rw [hread]
      exact answers_does rfl w
    · exact answers_act _ w
  · rename_i f arguments keywords
    show Answers host next _ (if keywords.isEmpty then _ else _)
    split
    · exact answers_does rfl
    · exact answers_act _
  · exact answers_ofCommand _
  · exact answers_act _

end Answering

variable (host : Host)

/-- **A program does what is done when it is run.** -/
theorem execute_ofProgram (p : Program) (w : World) :
    ((ofProgram host p).run host).execute w = (p.run host).execute w := by
  induction p generalizing w with
  | done v => rfl
  | fail e => rfl
  | ask request k ih =>
    have hrun : (Program.run host (.ask request k)).execute w =
        ((k ((answer host request).execute w).1).run host).execute
          ((answer host request).execute w).2 := execute_bind_ok (execute_attempt _ w)
    rw [ofProgram, answers_ofRequest request w, hrun]
    exact ih _ _
  | define head body k _ ih =>
    rw [ofProgram, after, execute_acts, Program.run]
    rcases hf : (makeFunction head body).execute w with ⟨e | f, w'⟩
    · rw [execute_bind_error hf]
      rfl
    · rw [execute_bind_ok hf]
      exact ih f w'

/-- **Calling a value is what it does.** -/
theorem execute_ofCall (f : Value) (arguments : List Value) (w : World) :
    ((ofCall host f arguments).run host).execute w = (callValue host f arguments).execute w := by
  have hact : ∀ (a : Action Value) w, ((act .ends a).run host).execute w = a.execute w :=
    fun a w => by
      rw [answers_act a w]
      rcases a.execute w with ⟨_ | _, _⟩ <;> rfl
  rw [ofCall, execute_acts]
  cases f with
  | function id =>
    dsimp only
    rcases hf : w.function? id with _ | g
    · exact hact _ w
    · dsimp only
      rcases hseen : boundArguments g arguments with _ | seen
      · exact hact _ w
      · have hcall : (callValue host (.function id) arguments).execute w =
            (callFunction host g arguments).execute w := by
          rw [callValue, execute_bind_ok (execute_get w), hf]
        dsimp only
        rw [execute_acts, execute_ofProgram, hcall, callFunction, hseen]
        cases g.quiet <;> rfl
  | _ => exact hact _ w

end Activity

/-- What functions do whose programs run. -/
def Customs.ofPrograms : Customs := fun depth => Activity.ofCall (.ofDepth depth)

/-- **The host that programs run under is one in which functions do what their programs do.** -/
theorem Host.ofDepth_eq_tower (n : Nat) : ofDepth n = tower .ofPrograms n := by
  induction n with
  | zero => rfl
  | succ n ih =>
    rw [tower, ← ih, ofDepth, atop]
    congr 1
    funext f arguments
    rcases hcall : hookCall? f arguments with _ | ⟨r, factory, traits, overrides, strategy⟩
    · funext w
      exact (Activity.execute_ofCall (ofDepth n) f arguments w).symm
    · obtain ⟨serial, rfl, rfl⟩ := eq_of_hookCall? hcall
      exact callMethod_hook (ofDepth n) r factory traits overrides strategy

end TraitFactory
