import Mathlib.Logic.Relation
import TraitFactory.Proofs.Declarations
import TraitFactory.Session

/-!
# Runs of public operations

A run on a registry is any sequence of its public operations, with anything that happens beside
the registry in between. Strategies are runs, too: they compile a plan and evaluate it. The cache
is right throughout a run: it never belongs to a generation that is yet to come, and what it holds
for the present one is sound. For this it is enough that parents are registered whenever something
is compiled.
-/

namespace TraitFactory

/-! ## 1. Steps and runs -/

/-- Every parent of a registered factory is registered, in the registry as it is. -/
def World.ParentsKnown (w : World) (r : RegistryId) : Prop :=
  ∀ reg, w.registryAt? r = some reg → w.ParentsRegistered reg

/-- **A step that forgets no plans** on purpose: something beside the registry, a declaration,
traits that are applied without a failure, the cache switched on or off, or a compilation. -/
inductive Steady (r : RegistryId) : World → World → Prop
  | aside {w w' : World} (h : w.Aside r w') : Steady r w w'
  | declared {w : World} {c : Command} (h : Declares w r c) (host : Host) :
      Steady r w ((Action.performCommand host c).execute w).2
  | applied {w w' : World} {on traits v : Value} (h : w.Builds r on) {host : Host}
      (hok : (Action.performCommand host (.apply on traits)).execute w = (.ok v, w')) :
      Steady r w w'
  | switched {w : World} {registry : Option Value} (h : w.Means r registry) (flag : Value)
      (host : Host) :
      Steady r w ((Action.performCommand host (.setCache registry flag)).execute w).2
  | compiled {w : World} {registry : Option Value} (h : w.Means r registry)
      (hparents : w.ParentsKnown r) (factory : Value) (traits : Option Value) (host : Host) :
      Steady r w ((Action.performCommand host (.compile registry factory traits)).execute w).2

/-- **A public step** on a registry. -/
inductive Step (r : RegistryId) : World → World → Prop
  | steady {w w' : World} (h : Steady r w w') : Step r w w'
  | invalidated {w : World} {registry : Option Value} (h : w.Means r registry) (host : Host) :
      Step r w ((Action.performCommand host (.invalidate registry)).execute w).2

/-- A public step on a registry in which things may be compiled whatever their parents are. -/
inductive FreeStep (r : RegistryId) : World → World → Prop
  | step {w w' : World} (h : Step r w w') : FreeStep r w w'
  | compiled {w : World} {registry : Option Value} (h : w.Means r registry) (factory : Value)
      (traits : Option Value) (host : Host) :
      FreeStep r w ((Action.performCommand host (.compile registry factory traits)).execute w).2

/-- **A run** of public steps on a registry, of any length. -/
def Run (r : RegistryId) : World → World → Prop := Relation.ReflTransGen (Step r)

/-- A run in which things may be compiled whatever their parents are. -/
def FreeRun (r : RegistryId) : World → World → Prop := Relation.ReflTransGen (FreeStep r)

/-- A run in which no plans are forgotten on purpose. -/
def SteadyRun (r : RegistryId) : World → World → Prop := Relation.ReflTransGen (Steady r)

theorem Run.free {r : RegistryId} {w w' : World} (h : Run r w w') : FreeRun r w w' :=
  h.lift id fun _ _ hs => FreeStep.step hs

/-! ## 2. What a step does to a registry -/

namespace Action

variable {r : RegistryId} {w w' : World} {reg : Registry} {registry : Option Value}

theorem execute_resolverOf (hn : w.Neat r reg) : (resolverOf r).execute w = (.ok r, w) := by
  rw [resolverOf, execute_bind_ok (execute_getRegistry hn.registry), hn.plain.resolver]
  rfl

/-- A world in which the cache of a registry has been switched on or off. -/
def switched (w : World) (r : RegistryId) (flag : Value) : World :=
  w.modifyRegistry r fun reg =>
    { reg with cache := { reg.cache with enabled := w.isTrue flag, flag := flag } }

theorem execute_setCache (hn : w.Neat r reg) (flag : Value) :
    (setCache r flag).execute w = (.ok ⟨⟩, switched w r flag) := by
  rw [setCache, execute_bind_ok (execute_get w), execute_bind_ok (execute_resolverOf hn)]
  rfl

theorem execute_invalidate (hn : w.Neat r reg) :
    (invalidate r).execute w = (.ok ⟨⟩, w.withCache r reg.cache.clear) := by
  rw [invalidate, execute_bind_ok (execute_resolverOf hn)]
  exact execute_updateCache hn.registry _ hn.plain.handedPlans hn.plain.handedLayers
    hn.plain.handedPlans hn.plain.handedLayers

theorem execute_nothing {a : Action Unit} {w' : World} (h : a.execute w = (.ok ⟨⟩, w')) :
    (nothing a).execute w = (.ok .null, w') := by
  rw [nothing, execute_bind_ok h]
  rfl

theorem execute_setCacheCommand (hn : w.Neat r reg) (hr : w.Means r registry) {flag : Value}
    {host : Host} : (performCommand host (.setCache registry flag)).execute w =
      (.ok .null, switched w r flag) := by
  refine execute_nothing ?_
  rw [execute_bind_ok hr]
  exact execute_setCache hn flag

theorem execute_invalidateCommand (hn : w.Neat r reg) (hr : w.Means r registry) {host : Host} :
    (performCommand host (.invalidate registry)).execute w =
      (.ok .null, w.withCache r reg.cache.clear) := by
  refine execute_nothing ?_
  rw [execute_bind_ok hr]
  exact execute_invalidate hn

theorem execute_compileCommand (hr : w.Means r registry) {factory : Value}
    {traits : Option Value} {host : Host} :
    ((performCommand host (.compile registry factory traits)).execute w).2 =
      ((compile r factory traits).execute w).2 := by
  rw [performCommand, execute_bind_ok hr, execute_bind]
  rcases (compile r factory traits).execute w with ⟨_ | p, w'⟩ <;> rfl

/-- **All that a step which forgets no plans can do** to a registry. Something is compiled only
where a condition holds. -/
inductive Effect (P : Prop) (r : RegistryId) (reg : Registry) (w w' : World) : Prop
  | aside (h : w.Aside r w')
  | changed (h : w.Changed r w')
  | switched (flag : Value) (h : w' = Action.switched w r flag)
  | compiled (hp : P) {f : DefinitionId} {key : PlanKey} {outcome : Except Failure PlanId}
      {c : PlanCache} (h : Compiled r reg f key w outcome c w')

theorem effect_compile {P : Prop} (hp : P) (hn : w.Neat r reg) (factory : Value)
    (traits : Option Value) : Effect P r reg w ((compile r factory traits).execute w).2 := by
  obtain ⟨e, w', _, hexec, hu⟩ | ⟨f, dynamic, w₁, outcome, c, w', _, hexec, hc⟩ :=
    compile_spec hn factory traits
  · rw [hexec]
    exact .aside hu.aside
  · rw [hexec]
    exact .compiled hp hc

theorem effect_steady (hn : w.Neat r reg) (hs : Steady r w w') :
    Effect (w.ParentsKnown r) r reg w w' := by
  cases hs with
  | aside ha => exact .aside ha
  | declared hd host =>
    -- A declaration that gives a result is a change; one that fails was aside.
    have hsettles := settles_command hn hd host
    unfold Settles Leads at hsettles
    split at hsettles
    · rename_i v w' hexec
      rw [hexec]
      exact .changed hsettles
    · rename_i e w' hexec
      rw [hexec]
      exact .aside hsettles
  | applied hon hok => exact .changed (changed_apply hon hok)
  | switched hr flag host =>
    rw [execute_setCacheCommand hn hr]
    exact .switched flag rfl
  | compiled hr hparents factory traits host =>
    rw [execute_compileCommand hr]
    exact effect_compile hparents hn factory traits

end Action

/-! ## 3. The cache throughout a run -/

/-- **A registry whose cache belongs to no generation that is yet to come.** -/
structure World.Dated (w : World) (r : RegistryId) (reg : Registry) : Prop where
  neat : w.Neat r reg
  past : reg.cache.generation ≤ reg.generation

/-- **A registry whose cache is right**: what it holds for the present generation is sound. -/
structure World.Tracked (w : World) (r : RegistryId) (reg : Registry) : Prop extends
    World.Dated w r reg where
  sound : reg.cache.generation = reg.generation → reg.cache.Sound w reg

namespace World

variable {r : RegistryId} {w w' : World} {reg : Registry}

/-- A new registry is right. -/
theorem tracked_new (hn : w.Neat r {}) : w.Tracked r {} :=
  ⟨⟨hn, Int.le_refl 0⟩, fun _ => sound_of_empty rfl rfl⟩

theorem Tracked.coherent (h : w.Tracked r reg) (hparents : w.ParentsKnown r) : w.Coherent reg :=
  (hparents reg h.neat.registry).coherent h.neat.names

/-- After a change the cache belongs to an older generation. -/
theorem Dated.changed (h : w.Dated r reg) (hc : w.Changed r w') :
    ∃ reg', w'.Neat r reg' ∧ reg'.cache = reg.cache ∧ reg.generation < reg'.generation ∧
      reg'.cache.generation < reg'.generation := by
  obtain ⟨reg', hn, hcache, hlt⟩ := hc.neat reg h.neat
  exact ⟨reg', hn, hcache, hlt, hcache ▸ Int.lt_of_le_of_lt h.past hlt⟩

end World

namespace Action

variable {r : RegistryId} {w w' : World} {reg : Registry} {P : Prop}

theorem dated_switched (h : w.Dated r reg) (flag : Value) :
    (switched w r flag).Dated r
      { reg with cache := { reg.cache with enabled := w.isTrue flag, flag := flag } } := by
  exact ⟨⟨World.registryAt?_modifyRegistry h.neat.registry _, { h.neat.plain with },
    h.neat.definitions, h.neat.names⟩, h.past⟩

/-- Switching a cache changes nothing that it holds. -/
theorem tracked_switched (h : w.Tracked r reg) (flag : Value) :
    (switched w r flag).Tracked r
      { reg with cache := { reg.cache with enabled := w.isTrue flag, flag := flag } } := by
  refine ⟨dated_switched h.toDated flag, fun hgen => ?_⟩
  have htables : World.SameTables reg
      { reg with cache := { reg.cache with enabled := w.isTrue flag, flag := flag } } :=
    World.sameTables_cache reg _
  have hgrows : (switched w r flag).Extends w := ⟨.refl _, fun _ _ hs => hs⟩
  have hplain : (switched w r flag).definitions.Plain := h.neat.definitions
  have hsound := World.Sound.extend h.neat.definitions hplain hgrows htables (h.sound hgen)
  exact ⟨hsound.shared, hsound.plans⟩

/-- A cleared cache holds nothing. -/
theorem dated_cleared (h : w.Dated r reg) :
    (w.withCache r reg.cache.clear).Dated r { reg with cache := reg.cache.clear } := by
  exact ⟨⟨World.registryAt?_withCache h.neat.registry _, { h.neat.plain with },
    h.neat.definitions, h.neat.names⟩, h.past⟩

theorem tracked_cleared (h : w.Tracked r reg) :
    (w.withCache r reg.cache.clear).Tracked r { reg with cache := reg.cache.clear } :=
  ⟨dated_cleared h.toDated, fun _ => World.sound_of_empty rfl rfl⟩

theorem Compiled.dated (h : w.Dated r reg) {f : DefinitionId} {key : PlanKey}
    {outcome : Except Failure PlanId} {c : PlanCache}
    (hc : Compiled r reg f key w outcome c w') : w'.Dated r { reg with cache := c } := by
  refine ⟨hc.after.neat h.neat hc.recached, ?_⟩
  rcases hc.after.generation with hgen | hgen
  · exact hgen.symm ▸ h.past
  · exact Int.le_of_eq hgen

/-- The cache after a compilation. -/
theorem Compiled.tracked (h : w.Tracked r reg) (hco : w.Coherent reg) {f : DefinitionId}
    {key : PlanKey} {outcome : Except Failure PlanId} {c : PlanCache}
    (hc : Compiled r reg f key w outcome c w') : w'.Tracked r { reg with cache := c } := by
  refine ⟨hc.dated h.toDated, fun hgen => ?_⟩
  have hw' : w'.definitions.Plain := hc.recached.definitions ▸ h.neat.definitions
  have htables := World.sameTables_cache reg c
  exact World.Sound.extend hw' hw' (.refl w') htables (hc.sound hco h.sound hgen)

/-- What is kept by a step that forgets no plans: the generation does not go back, and while it is
the same no definition changes and a plan that is kept in the cache stays there. -/
structure Keeping (w : World) (reg : Registry) (w' : World) (reg' : Registry) : Prop where
  generation : reg.generation ≤ reg'.generation
  grows : reg'.generation = reg.generation → w'.Extends w
  cache : reg'.generation = reg.generation → reg.cache.generation = reg.generation →
    reg'.cache.generation = reg.cache.generation ∧
      ∀ key p, reg.cache.plans.lookup key = some p → reg'.cache.plans.lookup key = some p

theorem Keeping.refl (w : World) (reg : Registry) : Keeping w reg w reg :=
  ⟨Int.le_refl _, fun _ => .refl w, fun _ _ => ⟨rfl, fun _ _ hp => hp⟩⟩

theorem Keeping.trans {w₁ w₂ : World} {reg₁ reg₂ : Registry} (h : Keeping w reg w₁ reg₁)
    (h' : Keeping w₁ reg₁ w₂ reg₂) : Keeping w reg w₂ reg₂ := by
  -- A generation between two that are the same is the same.
  have hbetween : reg₂.generation = reg.generation →
      reg₁.generation = reg.generation ∧ reg₂.generation = reg₁.generation := by
    have hle := h.generation
    have hle' := h'.generation
    omega
  refine ⟨Int.le_trans h.generation h'.generation, fun hgen => ?_, fun hgen hin => ?_⟩ <;>
    obtain ⟨hgen₁, hgen₂⟩ := hbetween hgen
  · exact (h.grows hgen₁).trans (h'.grows hgen₂)
  · obtain ⟨hcache₁, hplans₁⟩ := h.cache hgen₁ hin
    obtain ⟨hcache₂, hplans₂⟩ := h'.cache hgen₂ (by omega)
    exact ⟨hcache₂.trans hcache₁, fun key p hp => hplans₂ key p (hplans₁ key p hp)⟩

/-- **One step** keeps the cache right and forgets no plans, if the registry is coherent whenever
something is compiled. -/
theorem Effect.tracked (h : w.Tracked r reg) (hco : P → w.Coherent reg)
    (he : Effect P r reg w w') : ∃ reg', w'.Tracked r reg' ∧ Keeping w reg w' reg' := by
  cases he with
  | aside ha =>
    have hn := ha.neat reg h.neat
    have hsound : reg.cache.generation = reg.generation → reg.cache.Sound w' reg := fun hgen =>
      World.Sound.extend h.neat.definitions hn.definitions ha.grows (.refl reg) (h.sound hgen)
    exact ⟨reg, ⟨⟨hn, h.past⟩, hsound⟩, Int.le_refl _, fun _ => ha.grows,
      fun _ _ => ⟨rfl, fun _ _ hp => hp⟩⟩
  | changed hc =>
    obtain ⟨reg', hn, _, hlt, hpast⟩ := h.changed hc
    -- After a change nothing that is cached belongs to the present generation.
    exact ⟨reg', ⟨⟨hn, Int.le_of_lt hpast⟩, fun hgen => absurd hgen (Int.ne_of_lt hpast)⟩,
      Int.le_of_lt hlt, fun hgen => absurd hgen (Int.ne_of_gt hlt),
      fun hgen => absurd hgen (Int.ne_of_gt hlt)⟩
  | switched flag hw =>
    subst hw
    have hgrows : (Action.switched w r flag).Extends w := ⟨.refl _, fun _ _ hs => hs⟩
    exact ⟨_, tracked_switched h flag, Int.le_refl _, fun _ => hgrows,
      fun _ _ => ⟨rfl, fun _ _ hp => hp⟩⟩
  | compiled hp hc =>
    -- A compilation changes no definition, and keeps every plan that counts.
    refine ⟨_, hc.tracked h (hco hp), Int.le_refl _, fun _ => hc.recached.extends, fun _ hin => ?_⟩
    exact ⟨hc.after.generation.elim id (·.trans hin.symm), hc.after.plans hin⟩

theorem Effect.dated (h : w.Dated r reg) (he : Effect P r reg w w') :
    ∃ reg', w'.Dated r reg' := by
  cases he with
  | aside ha => exact ⟨reg, ha.neat reg h.neat, h.past⟩
  | changed hc =>
    obtain ⟨reg', hn, _, _, hpast⟩ := h.changed hc
    exact ⟨reg', hn, Int.le_of_lt hpast⟩
  | switched flag hw => exact ⟨_, hw ▸ dated_switched h flag⟩
  | compiled _ hc => exact ⟨_, hc.dated h⟩

theorem tracked_step (h : w.Tracked r reg) (hs : Step r w w') : ∃ reg', w'.Tracked r reg' := by
  cases hs with
  | steady hs =>
    obtain ⟨reg', h', _⟩ := (effect_steady h.neat hs).tracked h h.coherent
    exact ⟨reg', h'⟩
  | invalidated hr host =>
    rw [execute_invalidateCommand h.neat hr]
    exact ⟨_, tracked_cleared h⟩

theorem dated_freeStep (h : w.Dated r reg) (hs : FreeStep r w w') : ∃ reg', w'.Dated r reg' := by
  cases hs with
  | step hs =>
    cases hs with
    | steady hs => exact (effect_steady h.neat hs).dated h
    | invalidated hr host =>
      rw [execute_invalidateCommand h.neat hr]
      exact ⟨_, dated_cleared h⟩
  | compiled hr factory traits host =>
    rw [execute_compileCommand hr]
    exact (effect_compile trivial h.neat factory traits).dated h

/-! ## 4. What a run preserves -/

/-- **The cache is right throughout a run.** -/
theorem tracked_run (h : w.Tracked r reg) (hrun : Run r w w') : ∃ reg', w'.Tracked r reg' := by
  -- By induction on the run; the registry may be another after each step.
  induction hrun with
  | refl => exact ⟨reg, h⟩
  | tail _ hs ih =>
    obtain ⟨reg', h'⟩ := ih
    exact tracked_step h' hs

theorem dated_freeRun (h : w.Dated r reg) (hrun : FreeRun r w w') : ∃ reg', w'.Dated r reg' := by
  induction hrun with
  | refl => exact ⟨reg, h⟩
  | tail _ hs ih =>
    obtain ⟨reg', h'⟩ := ih
    exact dated_freeStep h' hs

theorem tracked_steadyRun (h : w.Tracked r reg) (hrun : SteadyRun r w w') :
    ∃ reg', w'.Tracked r reg' ∧ Keeping w reg w' reg' := by
  induction hrun with
  | refl => exact ⟨reg, h, .refl w reg⟩
  | tail _ hs ih =>
    obtain ⟨reg₁, h₁, hkeeping₁⟩ := ih
    obtain ⟨reg₂, h₂, hkeeping₂⟩ := (effect_steady h₁.neat hs).tracked h₁ h₁.coherent
    exact ⟨reg₂, h₂, hkeeping₁.trans hkeeping₂⟩

/-! ## 5. Strategies -/

/-- A runner of a registry. -/
def RunsOn (w : World) (rid : RunnerId) (r : RegistryId) : Prop :=
  ∃ runner, w.runner? rid = some runner ∧ runner.registry = .registry r

theorem RunsOn.execute {rid : RunnerId} (h : RunsOn w rid r) :
    (registryOf rid).execute w = (.ok r, w) := by
  obtain ⟨runner, hrunner, hr⟩ := h
  have hget : (getRunner rid).execute w = (.ok runner, w) := by
    rw [getRunner, execute_bind_ok (execute_get w), hrunner]
    rfl
  rw [registryOf, execute_bind_ok hget, hr]
  rfl

section Strategies

-- The steps of a run are any that contain those which forget no plans: a strategy is a run in each
-- of the three senses.
variable {S : World → World → Prop} {host : Host} {rid : RunnerId} {input : RunInput}

/-- **Evaluations change definitions through public steps only**: whatever the hooks of a plan do,
its evaluation is a run. -/
def Orderly (S : World → World → Prop) (host : Host) (rid : RunnerId) (input : RunInput)
    (w : World) : Prop :=
  ∀ p w₁, Relation.ReflTransGen S w w₁ →
    Relation.ReflTransGen S w₁ ((evaluateRun host rid p input).execute w₁).2

theorem run_compile (hS : ∀ {w w'}, Steady r w w' → S w w') (hparents : w.ParentsKnown r)
    (factory : Value) (traits : Option Value) :
    Relation.ReflTransGen S w ((compile r factory traits).execute w).2 := by
  have hmeans : w.Means r (some (.registry r)) := rfl
  have hstep := Steady.compiled hmeans hparents factory traits default
  rw [execute_compileCommand hmeans] at hstep
  exact .single (hS hstep)

/-- **A strategy is a run**: it compiles, and then evaluates the plan. -/
theorem run_run (hS : ∀ {w w'}, Steady r w w' → S w w') (hr : RunsOn w rid r)
    (hparents : w.ParentsKnown r) (ho : Orderly S host rid input w) :
    Relation.ReflTransGen S w ((run host rid input).execute w).2 := by
  -- The evaluation starts where the compilation has left the world.
  have hcompile := run_compile hS hparents input.factory input.traits
  rw [run, execute_bind_ok hr.execute, execute_bind]
  rcases hexec : (compile r input.factory input.traits).execute w with ⟨e | p, w₁⟩ <;>
    rw [hexec] at hcompile
  · exact hcompile
  · exact hcompile.trans (ho p w₁ hcompile)

theorem run_evaluations (ho : Orderly S host rid input w) (p : PlanId) (times : List Unit)
    {w₁ : World} (hrun : Relation.ReflTransGen S w w₁) :
    Relation.ReflTransGen S w
      ((times.mapM fun _ => evaluateRun host rid p input).execute w₁).2 := by
  -- Each evaluation extends the run; a failure ends it.
  induction times generalizing w₁ with
  | nil => exact hrun
  | cons t times ih =>
    have hfirst := hrun.trans (ho p w₁ hrun)
    rw [List.mapM_cons, execute_bind]
    rcases hexec : (evaluateRun host rid p input).execute w₁ with ⟨e | v, w₂⟩ <;>
      rw [hexec] at hfirst
    · exact hfirst
    · have hrest := ih hfirst
      dsimp only
      rw [execute_bind]
      rcases hexec' : (times.mapM fun _ => evaluateRun host rid p input).execute w₂
        with ⟨e | vs, w₃⟩ <;> rw [hexec'] at hrest <;> exact hrest

/-- Several runs of one plan are a run, too. -/
theorem run_runList (hS : ∀ {w w'}, Steady r w w' → S w w') {count : Value}
    (hr : RunsOn w rid r) (hparents : w.ParentsKnown r) (ho : Orderly S host rid input w) :
    Relation.ReflTransGen S w ((runList host rid count input).execute w).2 := by
  have hcount := keeps_requireCount (F := .undisturbed) count w
  rw [runList, execute_bind]
  rcases hexec : (requireCount count).execute w with ⟨e | _, w₁⟩ <;> rw [hexec] at hcount
  · exact .single (hS (.aside hcount.aside))
  · have hfirst : Relation.ReflTransGen S w w₁ := .single (hS (.aside hcount.aside))
    have hr₁ : RunsOn w₁ rid r := by
      rw [RunsOn, World.runner?, hcount.runners]
      exact hr
    have hparents₁ : w₁.ParentsKnown r := by
      intro reg hreg name f t p
      rw [hcount.definitions]
      exact hparents reg ((hcount.registryAt? r).symm.trans hreg) name f t p
    have hcompile := hfirst.trans (run_compile hS hparents₁ input.factory input.traits)
    dsimp only
    rw [execute_bind_ok hr₁.execute, execute_bind]
    rcases hexec' : (compile r input.factory input.traits).execute w₁ with ⟨e | p, w₂⟩ <;>
      rw [hexec'] at hcompile
    · exact hcompile
    · dsimp only
      split
      · exact hcompile
      · rename_i n _
        have hall := run_evaluations ho p (List.replicate n.toNat ()) hcompile
        rw [execute_bind]
        rcases hexec'' : ((List.replicate n.toNat ()).mapM fun _ =>
            evaluateRun host rid p input).execute w₂ with ⟨e | vs, w₃⟩ <;> rw [hexec''] at hall
        · exact hall
        · exact hall.tail (hS (.aside ((apart_alloc _).keeps w₃).aside))

end Strategies

end Action

/-! ## 6. A run of declarations -/

namespace World

variable {r : RegistryId} {w w₀ : World}

/-- Parents are known when the parent of every definition that there is, is registered. -/
theorem parentsKnown_of_all
    (h : (w.registryAt? r).all (fun reg => w.definitions.items.all fun d =>
      d.template.all fun t => match t.parent with
        | .definition p => reg.factory? (w.definitions.nameOf p) = some p
        | _ => true) = true) : w.ParentsKnown r := by
  intro reg hreg name f t p _ ht hp
  obtain ⟨definition, hd, hdt⟩ := Definitions.get?_of_template? ht
  -- The factory stands in the store, so the check has gone over it.
  obtain ⟨hlt, hget⟩ := Array.getElem?_eq_some_iff.mp hd
  rw [hreg] at h
  have hall := Array.all_eq_true.mp h f.index hlt
  rw [hget, hdt, Option.all_some, hp] at hall
  exact of_decide_eq_true hall

theorem builds_of_builder {b : BuilderId}
    (h : (w.builder? b).map (·.registry) = some (.registry r)) : w.Builds r (.builder b) := by
  obtain ⟨builder, hb, hr⟩ := Option.map_eq_some_iff.mp h
  exact ⟨b, builder, rfl, hb, hr⟩

/-- A world after a command, whatever came of it. -/
def after (w : World) (c : Command) : World := ((Action.performCommand default c).execute w).2

theorem run_after (h : Run r w₀ w) {c : Command} (hc : Declares w r c) : Run r w₀ (w.after c) :=
  h.tail (.steady (.declared hc default))

/-- A session starts with a new registry. -/
theorem neat_fresh : fresh.Neat ⟨0⟩ {} where
  registry := rfl
  plain := ⟨⟨∅, rfl⟩, ⟨∅, rfl⟩, rfl, rfl, rfl, rfl⟩
  definitions d definition hd := by
    obtain ⟨hlt, _⟩ := Array.getElem?_eq_some_iff.mp hd
    exact absurd hlt (Nat.not_lt_zero _)
  names name f hf := by cases hf

/-- A factory with a trait of its own, and a child that applies this trait and declares what the
trait declares, too. -/
def family : World :=
  ((((fresh.after (.defineFactory (some (.registry ⟨0⟩)) (.text "base") .null .null none)).after
    (.localTrait (.builder ⟨0⟩) (.text "v"))).after
    (.set (.builder ⟨1⟩) (.text "rank") (some (.int 1)) .null)).after
    (.childFactory (.builder ⟨0⟩) (.text "child") .null (some (.text "v")))).after
    (.set (.builder ⟨2⟩) (.text "rank") (some (.int 2)) .null)

theorem run_family : Run ⟨0⟩ fresh family := by
  refine run_after ?_ (.set (builds_of_builder (by decide +kernel)) _ _ _)
  refine run_after ?_ (.childFactory (builds_of_builder (by decide +kernel)) _ _ _)
  refine run_after ?_ (.set (builds_of_builder (by decide +kernel)) _ _ _)
  refine run_after ?_ (.localTrait (builds_of_builder (by decide +kernel)) _)
  exact run_after .refl (.defineFactory (by rfl) _ _ _ _)

theorem parentsKnown_family : family.ParentsKnown ⟨0⟩ :=
  parentsKnown_of_all (by decide +kernel)

end World

end TraitFactory
