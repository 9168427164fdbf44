import TraitFactory.Proofs.Counting
import TraitFactory.Proofs.Grounding
import TraitFactory.Proofs.UniformCommands

/-!
# Starting afresh

A runner that is reset clears its registry and starts to count its ids anew. What was cached before
stays in the cache, but it is of an older generation, so from then on all is done as it would be if
a new registry stood in the place of the old one. Only the count of its changes, which goes on,
still tells one from the other.
-/

namespace TraitFactory

open Action Recorded

/-- Here it does not matter what registries count, and all else does. -/
local instance Scrutiny.butCounts : Scrutiny := ⟨False, True⟩

/-! ## 1. Steps -/

/-- **Steps**, of which each may depend on what came of those before: commands, and whatever else is
done. -/
inductive Steps where
  | done
  | command (c : Command) (next : Except Failure Value → Steps)
  | activity (a : Activity) (next : Except Failure Value → Steps)

namespace Steps

/-- **Takes the steps** and gives what came of each. One that fails does not stop those after it. -/
def take (host : Host) : Steps → Action (List (Except Failure Value))
  | done => return []
  | command c next => do
    let outcome ← attempt (performCommand host c)
    return outcome :: (← (next outcome).take host)
  | activity a next => do
    let outcome ← attempt (a.run host)
    return outcome :: (← (next outcome).take host)

/-- **Steps whose commands are of a kind.** All else that is done does the same in alike worlds. -/
def Of (kind : Command → Prop) : Steps → Prop
  | done => True
  | command c next => kind c ∧ ∀ outcome, (next outcome).Of kind
  | activity a next => a.Discreet (fun _ => True) ∧ ∀ outcome, (next outcome).Of kind

variable {host : Host} {steps : Steps}

/-- **Steps are taken alike** if none of them asks a registry for its count. -/
theorem uniform_take (hhost : host.Uniform) (h : steps.Of fun c => c.asksCount = false) :
    Uniform (steps.take host) := by
  induction steps with
  | done => exact uniform_pure _
  | command c next ih =>
    exact uniform_bind (uniform_attempt (uniform_performCommand hhost h.1)) fun outcome =>
      uniform_bind (ih outcome (h.2 outcome)) fun _ => uniform_pure _
  | activity a next ih =>
    exact uniform_bind (uniform_attempt (Activity.uniform_run hhost h.1)) fun outcome =>
      uniform_bind (ih outcome (h.2 outcome)) fun _ => uniform_pure _

end Steps

/-! ## 2. Histories -/

/-- **A world whose registries keep their caches to themselves.** -/
def World.Secluded (w : World) : Prop := ∀ r reg, w.registryAt? r = some reg → reg.Secluded

/-- The frame of what leaves caches where they are. -/
def Frame.secluded : Frame where
  rel w w' := w.Secluded → w'.Secluded
  refl _ h := h
  trans h h' hw := h' (h hw)

namespace Action

variable {host : Host} {α : Type} {Q : α → Prop}

/-- What does the same in a world and in the world itself, leaves caches where they are. -/
theorem UniformWith.secludes {a : Action α} (h : UniformWith Q a) : Keeps .secluded a :=
  fun w hw => World.Alike.secluded
    ((h w w (.refl hw)).alike : (a.execute w).2.Alike (a.execute w).2)

theorem secludes_performCommand (hhost : host.Uniform) (c : Command) :
    Keeps .secluded (performCommand host c) := by
  by_cases hasks : c.asksCount
  · cases c with
    | generation registry =>
      -- A count is only read.
      exact keeps_bind (uniform_registryArgument registry).secludes fun r =>
        keeps_bind (keeps_getRegistry r) fun _ => keeps_pure _
    | _ => cases hasks
  · exact (uniform_performCommand hhost (Bool.eq_false_iff.mpr hasks)).secludes

end Action

/-- **No history gives a cache away.** -/
theorem Steps.secludes_take {host : Host} {kind : Command → Prop} {steps : Steps}
    (hhost : host.Uniform) (h : steps.Of kind) : Keeps .secluded (steps.take host) := by
  induction steps with
  | done => exact keeps_pure _
  | command c next ih =>
    exact keeps_bind (keeps_attempt (secludes_performCommand hhost c)) fun outcome =>
      keeps_bind (ih outcome (h.2 outcome)) fun _ => keeps_pure _
  | activity a next ih =>
    exact keeps_bind (keeps_attempt (Activity.uniform_run hhost h.1).secludes) fun outcome =>
      keeps_bind (ih outcome (h.2 outcome)) fun _ => keeps_pure _

/-! ## 3. Clearing -/

/-- A table that can be cleared: it is kept, or a dictionary. -/
def World.Clears (w : World) : Slot (Table DefinitionId) → Prop
  | .own _ => True
  | .given v => ∃ o entries, v = .object o ∧ w.heap.get? o = some (.dict entries)

/-- What was never handed out can be cleared. -/
theorem World.clears_of_own {w : World} {t : Slot (Table DefinitionId)} (h : t.own?.isSome) :
    w.Clears t := by
  cases t with
  | own t => trivial
  | given v => cases h

/-- **What is left of a registry that is reset**: its tables are empty, one change is counted more, and
nothing happens to its cache. -/
def Registry.cleared (reg : Registry) : Registry :=
  { reg with
    factories := reg.factories.modify fun _ => ∅
    traits := reg.traits.modify fun _ => ∅
    generation := reg.generation + 1 }

/-- To clear a dictionary leaves dictionaries. -/
theorem World.Clears.setObject {w : World} {t : Slot (Table DefinitionId)} (h : w.Clears t)
    (o : ObjectId) : (w.setObject o (.dict [])).Clears t := by
  cases t with
  | own t => trivial
  | given v =>
    obtain ⟨q, entries, rfl, hq⟩ := h
    have hget : (w.setObject o (.dict [])).heap.get? q =
        if o.index = q.index then if o.index < w.heap.objects.size then some (.dict []) else none
        else w.heap.get? q := Array.getElem?_setIfInBounds
    by_cases hoq : o.index = q.index
    · have hlt : q.index < w.heap.objects.size := (Array.getElem?_eq_some_iff.mp hq).1
      exact ⟨q, [], rfl, by rw [hget, if_pos hoq, if_pos (hoq ▸ hlt)]⟩
    · exact ⟨q, entries, rfl, by rw [hget, if_neg hoq, hq]⟩

namespace Action

variable {w : World} {r : RegistryId} {reg : Registry} {t u : Slot (Table DefinitionId)}

/-- A table is cleared, and what could be cleared still can be. -/
theorem execute_clearTable (h : w.Clears t) (hu : w.Clears u) : ∃ w',
    (clearTable t).execute w = (.ok (t.modify fun _ => ∅), w') ∧
      w'.registries = w.registries ∧ w'.Clears u := by
  cases t with
  | own t => exact ⟨w, rfl, rfl, hu⟩
  | given v =>
    obtain ⟨o, entries, rfl, ho⟩ := h
    refine ⟨w.setObject o (.dict []), ?_, rfl, hu.setObject o⟩
    rw [clearTable, execute_bind_ok (execute_get w)]
    rw [show w.heap.object? (.object o) = some (.dict entries) from ho]
    rfl

/-- **A registry whose tables can be cleared is reset.** -/
theorem execute_resetRegistry (hreg : w.registryAt? r = some reg) (hf : w.Clears reg.factories)
    (ht : w.Clears reg.traits) : ∃ w', (resetRegistry r).execute w = (.ok (), w') ∧
      w'.registryAt? r = some reg.cleared ∧ w.Idle w' ∧ w'.extras = w.extras := by
  obtain ⟨w₁, h₁, hregs₁, ht₁⟩ := execute_clearTable hf ht
  have hreg₁ : w₁.registryAt? r = some reg := by rw [World.registryAt?, hregs₁]; exact hreg
  let w₂ := w₁.modifyRegistry r fun reg' =>
    { reg' with factories := reg.factories.modify fun _ => ∅ }
  have hreg₂ := World.registryAt?_modifyRegistry hreg₁ fun reg' =>
    { reg' with factories := reg.factories.modify fun _ => ∅ }
  obtain ⟨w₃, h₃, hregs₃, -⟩ := execute_clearTable (w := w₂) (t := reg.traits) ht₁ ht₁
  have hreg₃ : w₃.registryAt? r = w₂.registryAt? r := by rw [World.registryAt?, hregs₃]; rfl
  have hdone : (resetRegistry r).execute w = (.ok (), ((do
      modifyRegistry r fun reg' => { reg' with traits := reg.traits.modify fun _ => ∅ }
      touch r
      log .info Registry.logger "Registry reset" : Action Unit).execute w₃).2) := by
    rw [resetRegistry, execute_bind_ok (execute_getRegistry hreg), execute_bind_ok h₁]
    show (clearTable reg.traits >>= _).execute w₂ = _
    rw [execute_bind_ok h₃]
    rfl
  have hkept := unnamed_resetRegistry r w
  rw [hdone] at hkept
  refine ⟨_, hdone, ?_, hkept.1, hkept.2⟩
  have h₄ := World.registryAt?_modifyRegistry (hreg₃.trans hreg₂) fun reg' =>
    { reg' with traits := reg.traits.modify fun _ => ∅ }
  exact World.registryAt?_modifyRegistry h₄ Registry.touch

end Action

/-! ## 4. New registries -/

namespace Registry

/-- **A new registry**, whose cache was switched by a flag. -/
def new (enabled : Bool) (flag : Value) : Registry :=
  { cache := { enabled := enabled, flag := flag } }

/-- **A new registry in the place of another**, whose cache is switched as the other's was. What the
tables of the other were handed out as is still there, and empty. -/
def renewed (reg : Registry) : Registry :=
  { new reg.cache.enabled reg.cache.flag with
    factories := reg.factories.modify fun _ => ∅
    traits := reg.traits.modify fun _ => ∅ }

variable {reg : Registry}

/-- Where nothing was handed out, it is just a new one. -/
theorem renewed_own {factories traits : Table DefinitionId} (hf : reg.factories = .own factories)
    (ht : reg.traits = .own traits) : reg.renewed = new reg.cache.enabled reg.cache.flag := by
  rw [renewed, hf, ht]
  rfl

/-- **What is left of a registry presents the same as a new one**: all that is cached is old. -/
theorem like_renewed (h : reg.Secluded) : reg.cleared.Like reg.renewed where
  presented := by
    have hold : reg.cache.generation < reg.cleared.generation := Int.lt_add_one_of_le h.past
    have hcache : reg.renewed.cache.presented 0 = reg.cache.presented reg.cleared.generation := by
      have hnew : reg.renewed.cache.presented 0 = reg.renewed.cache := rfl
      rw [hnew, PlanCache.presented_old hold, h.source, h.handedPlans, h.handedLayers]
      rfl
    show ({ reg.renewed with cache := reg.renewed.cache.presented 0 } : Registry) =
      { reg.cleared with generation := 0, cache := reg.cache.presented reg.cleared.generation }
    rw [hcache, renewed, cleared, new, h.resolver]
  left := { h with past := Int.le_of_lt (Int.lt_add_one_of_le h.past) }
  right := ⟨Int.le_refl 0, rfl, rfl, rfl, rfl⟩
  same hcounts := hcounts.elim

/-- Clearing a registry first makes no difference. -/
theorem renewed_cleared (reg : Registry) : reg.cleared.renewed = reg.renewed := by
  have htwice : ∀ t : Slot (Table DefinitionId),
      (t.modify fun _ => ∅).modify (fun _ => ∅) = t.modify fun _ => ∅ := fun t => by cases t <;> rfl
  rw [renewed, cleared, htwice, htwice]
  rfl

end Registry

/-- **A world with a new registry in the place of one.** All else stays. -/
def World.renewed (w : World) (r : RegistryId) : World := w.modifyRegistry r Registry.renewed

/-- **A world after a reset is like one with a new registry.** -/
theorem World.alike_renewed {w : World} {r : RegistryId} {reg : Registry} (hreg : reg.Secluded)
    (h : w.Secluded) (hr : w.registryAt? r = some reg.cleared) : w.Alike (w.renewed r) where
  rest := rfl
  log _ := rfl
  size := Array.size_modify
  like q _ _ hq hq' := by
    rw [renewed, registryAt?_of_modifyRegistry] at hq'
    by_cases hqr : q = r
    · subst hqr
      rw [if_pos rfl, hr] at hq'
      cases hr.symm.trans hq
      cases hq'
      rw [reg.renewed_cleared]
      exact Registry.like_renewed hreg
    · rw [if_neg hqr] at hq'
      cases hq.symm.trans hq'
      exact .refl (h q _ hq)

/-! ## 5. Runners -/

/-- Where a runner is, and what belongs to it. -/
structure Post where
  runner : RunnerId
  registry : RegistryId
  settings : SettingsId
  evaluator : EvaluatorId
  deriving DecidableEq

/-- **A world in which a runner is as it was made**, but for the ids that were drawn. -/
structure World.Manned (w : World) (p : Post) : Prop where
  runner : w.runner? p.runner =
    some ⟨.registry p.registry, .settings p.settings, .evaluator p.evaluator⟩
  evaluator : ∃ serial next, w.evaluator? p.evaluator =
    some ⟨.settings p.settings, .method serial (.runner p.runner) associationHook, next⟩

namespace World

variable {w w' : World} {p : Post}

theorem Manned.idle (h : w.Manned p) (hidle : w.Idle w') : w'.Manned p where
  runner := by rw [runner?, hidle.runners]; exact h.runner
  evaluator := by rw [evaluator?, hidle.evaluators]; exact h.evaluator

/-- **A registry and a runner as they are made**: the registry is new, and the runner counts from
the beginning. -/
structure AsMade (w : World) (p : Post) (reg : Registry) (start : Int) : Prop where
  manned : w.Manned p
  registry : w.registryAt? p.registry = some reg
  next : w.nextId? p.evaluator = some (.int start)

end World

namespace Action

variable {w w' : World} {p : Post} {q : RunnerId} {start : Int}

theorem execute_registryOf (h : w.Manned p) :
    (registryOf p.runner).execute w = (.ok p.registry, w) := by
  rw [registryOf, getRunner, execute_bind, execute_bind_ok (execute_get w), h.runner]
  rfl

theorem execute_evaluatorOf_manned (h : w.Manned p) :
    (evaluatorOf p.runner).execute w = (.ok p.evaluator, w) := by
  rw [evaluatorOf, getRunner, execute_bind, execute_bind_ok (execute_get w), h.runner]
  rfl

/-- A registry that compiles for itself has its own cache switched. -/
theorem execute_setCache_own {r : RegistryId} {reg : Registry} (hreg : w.registryAt? r = some reg)
    (hresolver : reg.resolver = none) (flag : Value) : (setCache r flag).execute w =
      (.ok ⟨⟩, w.modifyRegistry r fun reg =>
        { reg with cache := { reg.cache with enabled := w.isTrue flag, flag := flag } }) := by
  have hown : (resolverOf r).execute w = (.ok r, w) := by
    rw [resolverOf, execute_bind_ok (execute_getRegistry hreg), hresolver]
    rfl
  rw [setCache, execute_bind_ok (execute_get w), execute_bind_ok hown]
  rfl

theorem execute_makeEvaluator {s : SettingsId} {settings : RunnerSettings}
    (hS : w.settingsAt? s = some settings) (hstart : settings.stubIdStart.asInt? = some start)
    (associate : Value) : (makeEvaluator s associate).execute w = (.ok ⟨w.evaluators.size⟩,
      { w with evaluators := w.evaluators.push ⟨.settings s, associate, .int start⟩ }) := by
  rw [makeEvaluator, execute_bind_ok (execute_getSettings hS),
    execute_bind_ok (execute_firstId hstart w)]
  rfl

/-- **A new runner on a new registry.** -/
theorem asMade_new {settings : RunnerSettings} (hstart : settings.stubIdStart.asInt? = some start)
    (h : (newRegistry >>= fun r => newRunner r settings).execute w = (.ok q, w')) :
    ∃ p : Post, p.runner = q ∧
      w'.AsMade p (.new (w.isTrue settings.cachePlans) settings.cachePlans) start := by
  obtain ⟨r, w₁, hr, h⟩ := ok_of_execute_bind h
  cases hr
  obtain ⟨s, w₂, hs, h⟩ := ok_of_execute_bind h
  obtain ⟨hreg, hS, htrue⟩ : w₂.registryAt? ⟨w.registries.size⟩ = some {} ∧
      w₂.settingsAt? s = some settings ∧
      w₂.isTrue settings.cachePlans = w.isTrue settings.cachePlans := by
    cases hs
    exact ⟨Array.getElem?_push_size, Array.getElem?_push_size, rfl⟩
  clear hs
  rw [execute_bind_ok (execute_setCache_own hreg rfl _), htrue] at h
  obtain ⟨_, w₃, hget, h⟩ := ok_of_execute_bind h
  obtain ⟨method, w₄, hmethod, h⟩ := ok_of_execute_bind h
  obtain ⟨ev, w₅, hmake, h⟩ := ok_of_execute_bind h
  cases hget
  cases hmethod
  cases (execute_makeEvaluator (by exact hS) hstart _).symm.trans hmake
  cases h
  exact ⟨⟨_, ⟨w.registries.size⟩, s, ⟨w₂.evaluators.size⟩⟩, rfl,
    ⟨⟨Array.getElem?_push_size, _, _, Array.getElem?_push_size⟩,
      World.registryAt?_modifyRegistry hreg _,
      congrArg (Option.map Evaluator.nextId) Array.getElem?_push_size⟩⟩

/-- **A runner that is reset** clears its registry and counts from the beginning. -/
theorem execute_resetRunner {reg : Registry} (host : Host) (h : w.Manned p)
    (hreg : w.registryAt? p.registry = some reg) (hf : w.Clears reg.factories)
    (ht : w.Clears reg.traits) (hstart : w.stubIdStart? p.settings = some start) :
    ∃ w', (resetRunner host p.runner).execute w = (.ok (), w') ∧
      w'.AsMade p reg.cleared start := by
  obtain ⟨w₁, hcleared, hreg₁, hidle, hextras⟩ := execute_resetRegistry hreg hf ht
  have h₁ := h.idle hidle
  have hstart₁ : w₁.stubIdStart? p.settings = some start := by
    rw [World.stubIdStart?, World.settingsAt?, hidle.settings, World.extrasOf, hextras]
    exact hstart
  obtain ⟨serial, next, hE⟩ := h₁.evaluator
  let w₂ := w₁.modifyEvaluator p.evaluator fun E => { E with nextId := .int start }
  have hE₂ : w₂.evaluator? p.evaluator =
      some ⟨.settings p.settings, .method serial (.runner p.runner) associationHook, .int start⟩ := by
    show (w₁.evaluators.modify p.evaluator.index _)[p.evaluator.index]? = _
    rw [Array.getElem?_modify, if_pos rfl]
    exact congrArg (Option.map _) hE
  refine ⟨w₂, ?_, ⟨h₁.runner, serial, _, hE₂⟩, hreg₁, congrArg (Option.map Evaluator.nextId) hE₂⟩
  rw [resetRunner, execute_bind_ok (execute_registryOf h), execute_bind_ok hcleared,
    execute_bind_ok (execute_evaluatorOf_manned h₁)]
  exact execute_resetIds hE rfl hstart₁

end Action

/-! ## 6. Fresh starts -/

/-- **Reset is a fresh start.** Steps are taken, whatever comes of them, and then a runner is reset
that is as it was made but for the ids that were drawn. From then on it is as made on a new registry,
in whose place the cleared one stands: all further steps come to the same and leave the same behind,
unless one of them asks the registry for its count. -/
theorem Steps.fresh_start {customs : Customs} (hcustoms : customs.Discreet) (n : Nat) {w₀ w : World}
    (hw₀ : w₀.Secluded) {history : Steps} (hhistory : history.Of fun _ => True)
    (hw : ((history.take (.tower customs n)).execute w₀).2 = w) {p : Post} (hp : w.Manned p)
    {reg : Registry} (hreg : w.registryAt? p.registry = some reg) (hf : w.Clears reg.factories)
    (ht : w.Clears reg.traits) {start : Int} (hstart : w.stubIdStart? p.settings = some start) :
    ∃ w', (resetRunner (.tower customs n) p.runner).execute w = (.ok (), w') ∧
      (w'.renewed p.registry).AsMade p reg.renewed start ∧
      ∀ further : Steps, further.Of (fun c => c.asksCount = false) →
        ((further.take (.tower customs n)).execute w').1 =
          ((further.take (.tower customs n)).execute (w'.renewed p.registry)).1 ∧
        ((further.take (.tower customs n)).execute w').2.Alike
          ((further.take (.tower customs n)).execute (w'.renewed p.registry)).2 := by
  have hhost := Host.uniform_tower hcustoms n
  have hsecluded : w.Secluded := hw ▸ Steps.secludes_take hhost hhistory w₀ hw₀
  obtain ⟨w', hreset, hmade⟩ := execute_resetRunner (.tower customs n) hp hreg hf ht hstart
  have hsecluded' : w'.Secluded := by
    have h := (uniform_resetRunner hhost p.runner).secludes w hsecluded
    rw [hreset] at h
    exact h
  have halike := World.alike_renewed (hsecluded _ _ hreg) hsecluded' hmade.registry
  refine ⟨w', hreset, ⟨⟨hmade.manned.runner, hmade.manned.evaluator⟩, ?_, hmade.next⟩,
    fun further hfurther => ?_⟩
  · rw [← reg.renewed_cleared]
    exact World.registryAt?_modifyRegistry hmade.registry _
  · have h := Steps.uniform_take hhost hfurther _ _ halike
    exact ⟨h.outcome.symm, h.alike⟩

/-- Functions that give nothing. -/
def Customs.idle : Customs := fun _ _ _ => .ends (.ok .null)

theorem Customs.discreet_idle [Scrutiny] : Customs.idle.Discreet := fun _ _ _ _ h => by
  cases h
  exact fun _ => rfl

/-- A new registry keeps its cache to itself. -/
theorem World.secluded_fresh : World.fresh.Secluded := by
  rintro ⟨r⟩ reg h
  cases r with
  | zero =>
    cases h
    exact secluded_new
  | succ r => cases h

namespace Steps

/-- Commands that do not depend on what comes of those before. -/
def commands : List Command → Steps
  | [] => .done
  | c :: cs => .command c fun _ => commands cs

theorem of_commands {kind : Command → Prop} : ∀ {cs : List Command}, (∀ c ∈ cs, kind c) →
    (commands cs).Of kind
  | [], _ => trivial
  | _ :: _, h => ⟨h _ List.mem_cons_self, fun _ =>
      of_commands fun _ hc => h _ (List.mem_cons_of_mem _ hc)⟩

/-- A factory with one attribute, a stand-in of it, and more. -/
def stubbing (factory : String) (pages : Int) (more : List Command) : Steps :=
  .command (.defineFactory none (.text factory) .null .null none) fun builder =>
    commands ([.set (builder.toOption.getD .null) (.text "pages") (some (.int pages)) .null,
      .compile none (.text factory) none,
      .run none { strategy := .text "build_stubbed", factory := .text factory }] ++ more)

theorem of_stubbing {kind : Command → Prop} {factory : String} {pages : Int} {more : List Command}
    (h : ∀ registry name model parent traits, kind (.defineFactory registry name model parent traits))
    (hmore : ∀ on, ∀ c ∈ [.set on (.text "pages") (some (.int pages)) .null,
      .compile none (.text factory) none,
      .run none { strategy := .text "build_stubbed", factory := .text factory }] ++ more, kind c) :
    (stubbing factory pages more).Of kind := ⟨h _ _ _ _ _, fun _ => of_commands (hmore _)⟩

/-- What a reader does before the shelves are cleared: one book is stubbed, another is not there, and
the cache is switched off and on. -/
def reading : Steps := stubbing "book" 300
  [.run none { strategy := .text "build", factory := .text "map" },
    .setCache none (.bool false), .compile none (.text "book") none, .setCache none (.bool true)]

/-- A world after the reading. -/
def read : World := ((reading.take (.tower .idle 1)).execute .fresh).2

/-- Where the runner of a new session is. -/
def freshPost : Post := ⟨⟨0⟩, ⟨0⟩, ⟨0⟩, ⟨0⟩⟩

/-- **After the reading** a reset runner does as one on a new registry would. -/
theorem fresh_start_reading : ∃ w',
    (resetRunner (.tower .idle 1) ⟨0⟩).execute read = (.ok (), w') ∧
    (w'.renewed ⟨0⟩).AsMade freshPost (.new true (.bool true)) 1000 ∧
    (((stubbing "map" 1 []).take (.tower .idle 1)).execute w').1 =
      (((stubbing "map" 1 []).take (.tower .idle 1)).execute (w'.renewed ⟨0⟩)).1 := by
  have hrenewed : (read.registryAt? ⟨0⟩).map Registry.renewed = some (.new true (.bool true)) := by
    decide +kernel
  have hown : ((read.registryAt? ⟨0⟩).all fun reg =>
      reg.factories.own?.isSome && reg.traits.own?.isSome) = true := by decide +kernel
  obtain ⟨reg, hreg, hnew⟩ := Option.map_eq_some_iff.mp hrenewed
  rw [hreg, Option.all_some, Bool.and_eq_true] at hown
  have hf := World.clears_of_own (w := read) hown.1
  have ht := World.clears_of_own (w := read) hown.2
  have hmanned : read.Manned freshPost := ⟨by decide +kernel, 0, .int 1001, by decide +kernel⟩
  have hstart : read.stubIdStart? freshPost.settings = some 1000 := by decide +kernel
  obtain ⟨w', hreset, hmade, hsame⟩ := fresh_start Customs.discreet_idle 1 World.secluded_fresh
    (of_stubbing (fun _ _ _ _ _ => trivial) fun _ _ _ => trivial) (w := read) rfl hmanned hreg hf ht
    hstart
  refine ⟨w', hreset, hnew ▸ hmade, (hsame _ (of_stubbing (fun _ _ _ _ _ => rfl) ?_)).1⟩
  simp [Command.asksCount]

/-- **The count of a registry goes on** when it is reset, where a new registry begins to count. -/
theorem count_goes_on : ∃ w', (resetRunner (.tower .idle 1) ⟨0⟩).execute .fresh = (.ok (), w') ∧
    (((commands [.generation none]).take (.tower .idle 1)).execute w').1 = .ok [.ok (.int 1)] ∧
    (((commands [.generation none]).take (.tower .idle 1)).execute (w'.renewed ⟨0⟩)).1 =
      .ok [.ok (.int 0)] :=
  ⟨((resetRunner (.tower .idle 1) ⟨0⟩).execute .fresh).2, Prod.ext (by rfl) rfl,
    by rfl, by rfl⟩

end Steps

end TraitFactory
