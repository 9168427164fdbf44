import TraitFactory.Proofs.Errands
import TraitFactory.Proofs.Ledgers

/-!
# Watching sessions

A session may read the attributes of any evaluation, call what it likes, and have any runner or
evaluator run plans, and so may each function that is called, level upon level. All of this is
watched from within, whoever evaluates. What is told follows every ledger of evaluations, so it is a
chart of all of them, as long as nothing meddles with them.
-/

namespace TraitFactory

open Action Recorded

/-! ## 1. Runs of any runner -/

/-- Whether a runner may be asked to run plans with overrides. -/
def World.mayRun (w : World) (r : RunnerId) (overrides : Value) : Bool :=
  (w.evaluatorOf? r).any fun ev => w.mayAsk ev overrides

namespace World

variable {w w' : World} {r : RunnerId} {ev : EvaluatorId} {overrides : Value}

theorem evaluatorOf?_upheld (h : w.evaluatorOf? r = some ev) (hupheld : w.Upheld w') :
    w'.evaluatorOf? r = some ev := by
  unfold evaluatorOf? at h ⊢
  rcases hR : w.runner? r with _ | R <;> rw [hR] at h
  · cases h
  · obtain ⟨_, hR', rfl⟩ := hupheld.runners r.index R hR
    rw [show w'.runner? r = some R from hR']
    exact h

theorem mayRun_upheld (h : w.mayRun r overrides) (hupheld : w.Upheld w') :
    w'.mayRun r overrides := by
  obtain ⟨ev, hev, hmay⟩ := Option.any_eq_true _ _ |>.mp h
  exact Option.any_eq_true _ _ |>.mpr
    ⟨ev, evaluatorOf?_upheld hev hupheld, mayAsk_upheld hmay hupheld⟩

theorem execute_evaluatorOf? (h : w.evaluatorOf? r = some ev) :
    (evaluatorOf r).execute w = (.ok ev, w) := by
  unfold evaluatorOf? at h
  rcases hR : w.runner? r with _ | R <;> rw [hR] at h
  · cases h
  · have hrunner : (getRunner r).execute w = (.ok R, w) := by
      rw [getRunner, execute_bind_ok (execute_get w), hR]
      rfl
    rw [evaluatorOf, execute_bind_ok hrunner]
    rw [Option.map_some] at h
    split at h
    · rename_i hevaluator
      cases h
      rw [Option.some.inj hevaluator]
      rfl
    · cases h

end World

namespace Recorded

variable {L : Ledger} {O : Observed} {w : World} {r : RunnerId}

theorem follows_guarded {α : Type} (a : Action α) : Follows L (guarded a) w := by
  intro hmild
  rw [guarded] at hmild ⊢
  by_cases hadded : w.Added (a.execute w).2
  · rw [if_pos hadded]
    exact L.unmoved hadded.unmoved
  · rw [if_neg hadded] at hmild
    exact absurd (hmild _ List.mem_cons_self) Bool.false_ne_true

theorem halts_compileFor (input : RunInput) :
    Halts (do compile (← registryOf r) input.factory input.traits) :=
  keeps_bind (keeps_registryOf r) fun _ => (idles_compile _ _ _).halts

section Running

variable (hO : O.Follows L)

include hO

theorem follows_evaluateRun {input : RunInput} (hmay : w.mayRun r input.overrides) (p : PlanId) :
    Follows L (evaluateRun O r p input) w := by
  obtain ⟨ev, hev, hask⟩ := Option.any_eq_true _ _ |>.mp hmay
  rw [Follows, evaluateRun, silent_bind_ok (World.execute_evaluatorOf? hev)]
  exact follows_evaluate hO hask none p _ _ _

theorem follows_run {input : RunInput} (hmay : w.mayRun r input.overrides) :
    Follows L (run O r input) w :=
  follows_silent_bind (halts_compileFor input) fun p _ h =>
    follows_evaluateRun hO (World.mayRun_upheld hmay h) p

theorem follows_runList {input : RunInput} (hmay : w.mayRun r input.overrides) (count : Value) :
    Follows L (runList O r count input) w := by
  have hcount : Idles (requireCount count) := keeps_requireCount count
  refine follows_silent_bind hcount.halts fun _ w₁ h₁ => ?_
  refine follows_silent_bind (halts_compileFor input) fun p w₂ h₂ => ?_
  have hmay₂ := World.mayRun_upheld hmay (h₁.trans h₂)
  split
  · exact follows_silent keeps_wrongType
  · refine (follows_mapM _ fun _ _ w₃ h₃ =>
      follows_evaluateRun hO (World.mayRun_upheld hmay₂ h₃) p).bind fun _ _ _ => ?_
    exact follows_silent (keeps_alloc _)

/-- **The run that an association asks for follows every ledger.** -/
theorem follows_runAssociated {overrides : Value} (hmay : w.mayRun r overrides)
    (cause : Option (EvaluationId × Association)) (factory traits strategy : Value) :
    Follows L (runAssociated O cause r factory traits overrides strategy) w := by
  refine follows_silent_bind (idles_tellAssociation _ _ _ _).halts fun _ w₁ h₁ => ?_
  refine follows_silent_bind
    (halts_compileFor ⟨strategy, factory, some traits, overrides, none, none⟩) fun p w₂ h₂ => ?_
  obtain ⟨ev, hev, hask⟩ :=
    Option.any_eq_true _ _ |>.mp (World.mayRun_upheld hmay (h₁.trans h₂))
  rw [Follows, silent_bind_ok (World.execute_evaluatorOf? hev)]
  exact follows_evaluate hO hask cause p _ _ _

end Running

end Recorded

/-! ## 2. Watched errands -/

/-- Whether an evaluation is as it was made, apart from what it has come to: it keeps its values itself,
and no one has put other declarations in the place of its plan's. -/
def World.intact (w : World) (e : EvaluationId) : Bool :=
  match w.evaluation? e with
  | some ⟨_, _, _, _, _, .own _, .own _, none, _⟩ => true
  | _ => false

theorem World.stands_of_intact {w : World} {e : EvaluationId} (h : w.intact e) :
    ∃ E t active, w.Stands e E t active ∧ E.declarations = none := by
  unfold World.intact at h
  split at h
  · rename_i p plan s hook follow t active extras hE
    exact ⟨⟨p, plan, s, hook, follow, .own t, .own active, none, extras⟩, t, active, hE, rfl⟩
  · cases h

namespace Errand

/-- Whether what an errand does is told from within. -/
def isTold (w : World) : Errand → Bool
  | .read e _ => w.intact e
  | .call _ _ => true
  | .run r input | .runList r _ input => w.mayRun r input.overrides
  | .evaluate ev _ input => w.mayAsk ev input.overrides

/-- **What is told of an errand, whoever does it.** Where it is not told from within, it is told
whether it meddles with evaluation. -/
def watch (O : Observed) (errand : Errand) : Recorded Value := do
  if errand.isTold (← silent get) then errand.told O else guarded (errand.action O.host)

theorem records_watch {O : Observed} (errand : Errand) :
    Records (errand.watch O) (errand.action O.host) := fun w => by
  show ((if errand.isTold w then errand.told O else guarded (errand.action O.host)) w).1 = _
  split
  · exact records_told errand w
  · exact records_guarded _ w

theorem follows_watch {L : Ledger} {O : Observed} (hO : O.Follows L) (errand : Errand) (w : World) :
    Recorded.Follows L (errand.watch O) w := by
  refine follows_get_bind ?_
  split
  · rename_i htold
    cases errand with
    | read e name =>
      obtain ⟨E, t, active, hE, hdeclarations⟩ := World.stands_of_intact htold
      exact follows_read hO hE hdeclarations name
    | call f arguments => exact hO.call f arguments w
    | run r input => exact follows_run hO htold
    | runList r count input => exact follows_runList hO htold count
    | evaluate ev p input => exact follows_evaluate hO htold none p _ _ _
  · exact follows_guarded _

end Errand

namespace Activity

/-- What is told of a session, or of a function that is called. -/
def watch (O : Observed) : Activity → Recorded Value
  | .ends outcome => silent (Action.liftExcept outcome)
  | .acts change next => do
    let w ← silent get
    guarded (set (change w))
    (next w).watch O
  | .does errand next => do
    let outcome ← (errand.watch O).attempt
    (next outcome).watch O

theorem records_watch {O : Observed} (activity : Activity) :
    Records (activity.watch O) (activity.run O.host) := by
  induction activity with
  | ends outcome => exact records_silent _
  | acts change next ih =>
    exact records_silent_bind fun w => (records_guarded _).bind fun _ => ih w
  | does errand next ih => exact (errand.records_watch.attempt).bind ih

/-- **A session follows every ledger**, as its errands do. -/
theorem follows_watch {L : Ledger} {O : Observed} (hO : O.Follows L) (activity : Activity) (w : World) :
    Recorded.Follows L (activity.watch O) w := by
  induction activity generalizing w with
  | ends outcome => exact follows_silent (keeps_liftExcept _)
  | acts change next ih =>
    exact follows_get_bind ((follows_guarded _).bind fun _ w₁ _ => ih w w₁)
  | does errand next ih =>
    exact (errand.follows_watch hO w).attempt.bind fun outcome w₁ _ => ih outcome w₁

/-- **What is told of a session is a chart.** -/
theorem charted_watch {O : Observed} (hO : O.Charted) (activity : Activity) (w : World) :
    Charted (activity.watch O) w :=
  follows_watch hO.follows activity w

end Activity

/-! ## 3. Watched levels of nesting -/

namespace Observed

variable {L : Ledger} (O : Observed) (activity : Value → List Value → Activity)

/-- What is told of a call one level above. -/
def attending (cause : Option (EvaluationId × Association)) (f : Value) (arguments : List Value) :
    Recorded Value :=
  match hookCall? f arguments with
  | some (r, factory, traits, overrides, strategy) => do
    if (← Recorded.silent get).mayRun r overrides then
      Recorded.runAssociated O cause r factory traits overrides strategy
    else guarded (Action.runAssociated O.host r factory traits overrides strategy)
  | none => (activity f arguments).watch O

variable {O activity} in
theorem records_attending (cause : Option (EvaluationId × Association)) (f : Value)
    (arguments : List Value) : Recorded.Records (attending O activity cause f arguments)
      ((O.host.atop activity).call f arguments) := by
  rw [attending, Host.atop]
  dsimp only
  rcases hookCall? f arguments with _ | ⟨r, factory, traits, overrides, strategy⟩
  · exact Activity.records_watch _
  · intro w
    show ((if w.mayRun r overrides then _ else _ : Recorded Value) w).1 = _
    split
    · exact Recorded.records_runAssociated cause r factory traits overrides strategy w
    · exact records_guarded _ w

/-- The surroundings one level above others, which are watched, too. -/
def topped : Observed where
  host := O.host.atop activity
  call := attending O activity none
  associate e a := attending O activity (some (e, a))
  records_call := records_attending none
  records_associate e a := records_attending (some (e, a))

/-- **Surroundings that are watched** on as many levels as there are. -/
def watched (customs : Customs) : Nat → Observed
  | 0 => .silent .exhausted
  | n + 1 => (watched customs n).topped (customs n)

theorem host_watched (customs : Customs) (n : Nat) :
    (watched customs n).host = .tower customs n := by
  induction n with
  | zero => rfl
  | succ n ih => exact congrArg (Host.atop · (customs n)) ih

variable {O activity} in
theorem follows_attending (hO : O.Follows L) (cause : Option (EvaluationId × Association)) (f : Value)
    (arguments : List Value) (w : World) :
    Recorded.Follows L (attending O activity cause f arguments) w := by
  rw [attending]
  split
  · refine follows_get_bind ?_
    split
    · rename_i hmay
      exact follows_runAssociated hO hmay cause _ _ _
    · exact follows_guarded _
  · exact Activity.follows_watch hO _ w

variable (L) in
/-- **On every level whatever is called follows every ledger**, whatever functions do. -/
theorem follows_watched (customs : Customs) (n : Nat) : (watched customs n).Follows L := by
  induction n with
  | zero =>
    exact ⟨fun _ _ _ => follows_silent (keeps_fail _), fun _ _ _ _ _ => follows_silent (keeps_fail _)⟩
  | succ n ih =>
    exact ⟨follows_attending ih none, fun e a => follows_attending ih (some (e, a))⟩

/-- **On every level whatever is called tells a chart.** -/
theorem charted_watched (customs : Customs) (n : Nat) : (watched customs n).Charted :=
  ⟨(follows_watched .charts customs n).call, (follows_watched .charts customs n).associate⟩

end Observed

end TraitFactory
