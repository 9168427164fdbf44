import TraitFactory.Proofs.Runs

/-!
# Transparency of the cache

Nobody can tell from what a compilation comes to whether the cache is on. In every world that
public steps lead to, both ways come to the plan of `World.compile`, or to its failure. And a plan
that the cache has handed out is the one that it hands out again, until the registry is changed or
the plans are forgotten on purpose.
-/

namespace TraitFactory

namespace Action

variable {r : RegistryId} {w w' : World} {reg : Registry} {factory : Value}
  {traits : Option Value}

/-! ## 1. What a compilation comes to -/

/-- The plan that a call of the compiler gives in a world, with all that it holds. -/
def planOf (r : RegistryId) (factory : Value) (traits : Option Value) (w : World) :
    Except Failure (Option Plan) :=
  match (compile r factory traits).execute w with
  | (.ok p, w') => .ok (w'.plan? p)
  | (.error e, _) => .error e

/-- **What a call of the compiler comes to** in a world: a plan that is there, or a failure. -/
def ComesTo (r : RegistryId) (factory : Value) (traits : Option Value) (w : World)
    (outcome : Except Failure Plan) : Prop := planOf r factory traits w = outcome.map some

/-- What the rule without a cache comes to for a call. -/
def ruled (w : World) (reg : Registry) (factory : Value) (traits : Option Value) :
    Except Failure Plan :=
  ((named reg factory traits).execute w).1.bind fun x => w.compile (.own reg.globals) x.1 x.2

/-- **Where the cache is right a call comes to what the rule does.** -/
theorem comesTo_ruled (h : w.Tracked r reg) (hco : w.Coherent reg) :
    ComesTo r factory traits w (ruled w reg factory traits) := by
  unfold ComesTo planOf ruled
  obtain ⟨e, w', hnamed, hexec, _⟩ | ⟨f, dynamic, w₁, outcome, c, w', hnamed, hexec, hc⟩ :=
    compile_spec h.neat factory traits
  · rw [hnamed, hexec]
    rfl
  -- The compilation's outcome is right since the registry is coherent.
  · have houtcome := hc.outcome hco h.sound
    rw [hnamed, hexec]
    show _ = (w.compile (.own reg.globals) f dynamic).map some
    cases outcome with
    | error e =>
      rw [show w.compile (.own reg.globals) f dynamic = .error e from houtcome]
      rfl
    | ok p =>
      obtain ⟨plan, hplan, hp, _⟩ := houtcome
      rw [hplan]
      exact congrArg Except.ok hp

/-- The rule does not look at the cache. -/
theorem ruled_switched (hn : w.Neat r reg) (flag : Value) :
    ruled (switched w r flag)
      { reg with cache := { reg.cache with enabled := w.isTrue flag, flag := flag } }
      factory traits = ruled w reg factory traits := by
  -- The two worlds differ in the registries alone, and arguments are read apart from those.
  have hnamed := (apart_named reg factory traits).withMargin w
    ⟨w.registries.modify r.index fun reg =>
      { reg with cache := { reg.cache with enabled := w.isTrue flag, flag := flag } }, w.log⟩
  have hcompile : ∀ f dynamic, (switched w r flag).compile (.own reg.globals) f dynamic =
      w.compile (.own reg.globals) f dynamic := fun _ _ =>
    World.compile_congr hn.definitions rfl
  show (((named reg factory traits).execute (switched w r flag)).1.bind fun x =>
    (switched w r flag).compile (.own reg.globals) x.1 x.2) = ruled w reg factory traits
  rw [show (named reg factory traits).execute (switched w r flag) = _ from hnamed]
  simp only [hcompile]
  rfl

theorem comesTo_switched (h : w.Tracked r reg) (hco : w.Coherent reg) (flag : Value) :
    ComesTo r factory traits (switched w r flag) (ruled w reg factory traits) := by
  have htracked := tracked_switched h flag
  rw [← ruled_switched h.neat flag]
  exact comesTo_ruled htracked (hco.congr h.neat.definitions rfl (World.sameTables_cache reg _))

/-! ## 2. Plans that are handed out again -/

theorem Asks.unique {f f' : DefinitionId} {dynamic dynamic' : List String}
    (h : Asks w reg factory traits f dynamic) (h' : Asks w reg factory traits f' dynamic') :
    f = f' ∧ dynamic = dynamic' := by
  obtain ⟨w₁, hnamed⟩ := named_of_asks h
  obtain ⟨w₂, hnamed'⟩ := named_of_asks h'
  cases hnamed.symm.trans hnamed'
  exact ⟨rfl, rfl⟩

/-- A compilation with the cache on leaves its plan under its key. -/
theorem kept_of_compile (h : w.Tracked r reg) (hco : w.Coherent reg) {f : DefinitionId}
    {dynamic : List String} {p : PlanId} (ha : Asks w reg factory traits f dynamic)
    (henabled : reg.cache.enabled = true)
    (hexec : (compile r factory traits).execute w = (.ok p, w')) :
    ∃ c, Compiled r reg f (w.definitions.nameOf f, dynamic) w (.ok p) c w' ∧
      c.generation = reg.generation ∧
      c.plans.lookup (w.definitions.nameOf f, dynamic) = some p := by
  obtain ⟨e, w₁, _, hexec', _⟩ | ⟨f', dynamic', w₁, outcome, c, w₁', hnamed, hexec', hc⟩ :=
    compile_spec h.neat factory traits
  · rw [hexec] at hexec'
    cases hexec'
  · rw [hexec] at hexec'
    cases hexec'
    obtain ⟨rfl, rfl⟩ := (asks_of_named hnamed).unique ha
    obtain ⟨plan, _, _, hkept⟩ := hc.outcome hco h.sound
    exact ⟨c, hc, hkept (hc.after.enabled.trans henabled)⟩

/-- **A plan is handed out again** while the generation stays and no plans are forgotten. -/
theorem plan_eq_of_steadyRun (h : w.Tracked r reg) (hco : w.Coherent reg) {f : DefinitionId}
    {dynamic : List String} {p q : PlanId} (ha : Asks w reg factory traits f dynamic)
    (henabled : reg.cache.enabled = true)
    (hexec : (compile r factory traits).execute w = (.ok p, w'))
    {w₂ w₃ : World} {reg₂ : Registry} {factory₂ : Value} {traits₂ : Option Value}
    (hrun : SteadyRun r w' w₂) (hreg₂ : w₂.registryAt? r = some reg₂)
    (hparents₂ : w₂.ParentsKnown r) (hgen : reg₂.generation = reg.generation)
    (henabled₂ : reg₂.cache.enabled = true) (ha₂ : Asks w₂ reg₂ factory₂ traits₂ f dynamic)
    (hexec₂ : (compile r factory₂ traits₂).execute w₂ = (.ok q, w₃)) : q = p := by
  obtain ⟨c, hc, hcgen, hlookup⟩ := kept_of_compile h hco ha henabled hexec
  obtain ⟨reg₂', h₂, hkeeping⟩ := tracked_steadyRun (hc.tracked h hco) hrun
  obtain rfl := Option.some.inj (hreg₂.symm.trans h₂.neat.registry)
  -- The first plan is still kept when the second compilation starts, under the same key.
  obtain ⟨hcgen₂, hplans₂⟩ := hkeeping.cache hgen hcgen
  obtain ⟨name, _, hf⟩ := ha.factory
  obtain ⟨definition, hd, _⟩ := h.neat.names name f hf
  have hd' : w'.definitions.get? f = some definition := by rw [hc.recached.definitions, hd]
  -- The factory's name has not changed, so both compilations mean the same key.
  have hname : w₂.definitions.nameOf f = w.definitions.nameOf f := by
    have hd₂ := (hkeeping.grows hgen).definitions.2 f definition hd'
    rw [Definitions.nameOf, Definitions.nameOf, hd, hd₂]
  obtain ⟨c₂, hc₂, _, hlookup₂⟩ :=
    kept_of_compile h₂ (h₂.coherent hparents₂) ha₂ henabled₂ hexec₂
  rw [hname] at hlookup₂
  have hin : reg₂.cache.generation = reg₂.generation := by
    rw [hcgen₂]
    exact hcgen.trans hgen.symm
  have hkept := hc₂.after.plans hin _ p (hplans₂ _ p hlookup)
  exact Option.some.inj (hlookup₂.symm.trans hkept)

/-! ## 3. The cache is transparent -/

end Action

end TraitFactory
