import TraitFactory.Proofs.Renewal
import TraitFactory.Proofs.Runs
import TraitFactory.Proofs.Spelling

/-!
# Runs in succession

A list of runs compiles once and evaluates the plan again and again. Single runs look the plan up
before each evaluation. As long as nothing happens to the registry, a further lookup never fails: a
cache that is on hands out the very plan, and without one another plan of the same content is made.
That is all in which runs in succession differ from a list of runs.
-/

namespace TraitFactory

/-- The key under which a run looks for its plan: the name of its factory and those of its traits. -/
def PlanKey.asked (factory : Value) (traits : List Value) : PlanKey :=
  (factory.name?.getD "", traits.filterMap (·.name?))

/-- A key whose names are spelled by a factory and traits that are given. -/
structure PlanKey.Spelled (key : PlanKey) (factory : Value) (traits : List Value) : Prop where
  factory : factory.name? = some key.1
  traits : List.Forall₂ (fun v name => v.name? = some name) traits key.2

theorem PlanKey.Spelled.asked_eq {key : PlanKey} {factory : Value} {traits : List Value}
    (h : key.Spelled factory traits) : PlanKey.asked factory traits = key := by
  have hnames : ∀ {traits : List Value} {names : List String},
      List.Forall₂ (fun v name => v.name? = some name) traits names →
        traits.filterMap (·.name?) = names := by
    intro traits names h
    induction h with
    | nil => rfl
    | cons hname _ ih => rw [List.filterMap_cons, hname, ih]
  rw [PlanKey.asked, h.factory, hnames h.traits]
  rfl

/-- Call-time traits that are given as a tuple of some elements, or not at all. -/
def World.TraitsAre (w : World) (traits : Option Value) (items : List Value) : Prop :=
  match traits with
  | none => items = []
  | some v => w.tuple? v = some items

namespace Action

/-! ## 1. Looking a plan up again -/

/-- What the log tells of a plan that was found in the cache. -/
def hitMessage (key : PlanKey) : String :=
  s!"Plan cache hit for {key.1} with traits {traitsText key.2}"

/-- Stores one more plan of some content, with layers of its own. -/
def storeAnother (key : PlanKey) (plan : Plan) : Action PlanId := do
  let layers ← plan.layers.mapM fun l => place (.layer l)
  debug resolverLogger (compiledMessage key plan)
  newPlan ⟨plan, layers⟩

/-- **Looking a plan up again**: a cache that is on hands out the very plan, and without one another
of the same content is stored. Neither can fail. -/
def lookAgain (enabled : Bool) (key : PlanKey) (p : PlanId) : Action PlanId := do
  if enabled then
    debug resolverLogger (hitMessage key)
    return p
  else
    match (← get).plan? p with
    | some plan => storeAnother key plan
    | none => return p

end Action

namespace World

variable {w w' : World} {r : RegistryId} {reg : Registry}

/-- **What a registry offers** once a plan was compiled: a cache that is on keeps the plan, and
without one the factory still compiles to what the plan is. -/
structure Offers (w : World) (r : RegistryId) (reg : Registry) (f : DefinitionId) (key : PlanKey)
    (p : PlanId) : Prop where
  neat : w.Neat r reg
  factory : reg.factory? key.1 = some f
  kept : reg.cache.enabled = true →
    reg.cache.generation = reg.generation ∧ reg.cache.plans.lookup key = some p
  made : reg.cache.enabled = false → ∃ plan, w.plan? p = some plan ∧
    w.compile (.own reg.globals) f key.2 = .ok plan

variable {f : DefinitionId} {key : PlanKey} {p : PlanId}

/-- To give a registry the cache that it has is to change nothing. -/
theorem withCache_self (h : w.registryAt? r = some reg) : w.withCache r reg.cache = w := by
  have hsame : w.registries.modify r.index (fun x => { x with cache := reg.cache }) =
      w.registries := by
    refine Array.ext_getElem? fun i => ?_
    rw [Array.getElem?_modify]
    split
    · rename_i hi
      have hat : w.registries[i]? = some reg := hi ▸ h
      rw [hat]
      rfl
    · rfl
  show { w with registries := _ } = w
  rw [hsame]

theorem Offers.undisturbed (h : w.Offers r reg f key p) (hu : w.Undisturbed w') :
    w'.Offers r reg f key p where
  neat := h.neat.undisturbed hu
  factory := h.factory
  kept := h.kept
  made hoff := by
    obtain ⟨plan, hp, hplan⟩ := h.made hoff
    refine ⟨plan, by rw [plan?, hu.stored?]; exact hp, ?_⟩
    rw [compile_congr h.neat.definitions hu.definitions, hplan]

end World

namespace Action

variable {w w' : World} {r : RegistryId} {reg : Registry} {f : DefinitionId} {key : PlanKey}
  {p : PlanId}

theorem execute_storeAnother (key : PlanKey) (plan : Plan) (w : World) :
    ∃ p w', (storeAnother key plan).execute w = (.ok p, w') ∧ w'.plan? p = some plan ∧
      ∃ w₁, w.Undisturbed w₁ ∧ ∃ stored, w' = { w₁ with plans := w₁.plans.push stored } := by
  obtain ⟨layers, w₁, hplace, hu⟩ := execute_placeAll plan.layers w
  refine ⟨⟨w₁.plans.size⟩, _, ?_, ?_, logged w₁ (compiledMessage key plan),
    Frame.undisturbed.trans hu (undisturbed_logged w₁ _), ⟨plan, layers⟩, rfl⟩
  · rw [storeAnother, execute_bind_ok hplace]
    rfl
  · exact congrArg (Option.map StoredPlan.plan) Array.getElem?_push_size

/-- To store one more plan leaves all as it is that a registry offers. -/
theorem offers_storeAnother (h : w.Offers r reg f key p) (key' : PlanKey) (plan : Plan) :
    ∃ q w', (storeAnother key' plan).execute w = (.ok q, w') ∧ w'.Offers r reg f key p ∧
      w'.runners = w.runners := by
  obtain ⟨q, w', hexec, _, w₁, hu, stored, rfl⟩ := execute_storeAnother key' plan w
  have h₁ := h.undisturbed hu
  refine ⟨q, _, hexec, ⟨⟨h₁.neat.registry, h₁.neat.plain, h₁.neat.definitions, h₁.neat.names⟩,
    h₁.factory, h₁.kept, fun hoff => ?_⟩, hu.runners⟩
  obtain ⟨made, hp, hmade⟩ := h₁.made hoff
  obtain ⟨old, hold, hplan⟩ := Option.map_eq_some_iff.mp hp
  have hlt : p.index < w₁.plans.size := (Array.getElem?_eq_some_iff.mp hold).1
  have hfound : (w₁.plans.push stored)[p.index]? = some old := by
    rw [Array.getElem?_push_lt hlt]
    exact (Array.getElem?_eq_getElem hlt).symm.trans hold
  refine ⟨made, (congrArg (Option.map StoredPlan.plan) hfound).trans (congrArg some hplan), ?_⟩
  rw [← hmade]
  exact World.compile_congr h₁.neat.definitions rfl

/-- **Looking a plan up again never fails**, and leaves all as it is that the registry offers. -/
theorem offers_lookAgain (h : w.Offers r reg f key p) :
    ∃ q w', (lookAgain reg.cache.enabled key p).execute w = (.ok q, w') ∧
      w'.Offers r reg f key p ∧ w'.runners = w.runners := by
  unfold lookAgain
  cases henabled : reg.cache.enabled with
  | true => exact ⟨p, _, rfl, h.undisturbed (undisturbed_logged w (hitMessage key)), rfl⟩
  | false =>
    obtain ⟨plan, hp, _⟩ := h.made henabled
    simp only [Bool.false_eq_true, if_false, execute_bind_ok (execute_get w), hp]
    exact offers_storeAnother h key plan

/-! ## 2. Compiling without a cache -/

section Uncached

variable (hn : w.Neat r reg) (hoff : reg.cache.enabled = false)

include hn hoff

/-- What is compiled anew without a cache is the plan of the rule, on layers of its own. -/
theorem execute_compileAnew_off (f : DefinitionId) (dynamic : List String) :
    (compileAnew r (.own reg.globals) f dynamic).execute w = (do
      let plan ← liftExcept (w.compile (.own reg.globals) f dynamic)
      let layers ← plan.layers.mapM fun l => place (.layer l)
      return (⟨plan, layers⟩ : StoredPlan)).execute w := by
  have hupdate : (updateCache r fun _ => reg.cache).execute w = (.ok ⟨⟩, w) :=
    (execute_updateCache hn.registry _ hn.plain.handedPlans hn.plain.handedLayers
      hn.plain.handedPlans hn.plain.handedLayers).trans (by rw [World.withCache_self hn.registry])
  unfold compileAnew
  rw [execute_bind_ok (execute_get w)]
  dsimp only
  rw [execute_bind_ok (execute_getRegistry hn.registry)]
  simp only [World.cachedStaticLayers_of_off w _ _ _ hoff, hoff, Bool.false_eq_true, if_false]
  rw [execute_bind_ok (execute_pure _ w), execute_bind_ok hupdate]
  rfl

/-- A plan is stored, and nothing is kept. -/
theorem execute_storeCompiled_off (key : PlanKey) (stored : StoredPlan) :
    (storeCompiled r key stored).execute w = (do
      debug resolverLogger (compiledMessage key stored.plan)
      newPlan stored).execute w := by
  let w₁ : World := { logged w (compiledMessage key stored.plan) with
    plans := w.plans.push stored }
  have hnew : (newPlan stored).execute (logged w (compiledMessage key stored.plan)) =
      (.ok ⟨w.plans.size⟩, w₁) := rfl
  have hreg₁ : w₁.registryAt? r = some reg := hn.registry
  have hinsert : reg.cache.insertPlan key ⟨w.plans.size⟩ = reg.cache := by
    simp [PlanCache.insertPlan, hoff]
  have hupdate : (updateCache r fun c => c.insertPlan key ⟨w.plans.size⟩).execute w₁ =
      (.ok ⟨⟩, w₁) := by
    rw [execute_updateCache hreg₁ (fun c => c.insertPlan key ⟨w.plans.size⟩) hn.plain.handedPlans
      hn.plain.handedLayers (by rw [hinsert]; exact hn.plain.handedPlans)
      (by rw [hinsert]; exact hn.plain.handedLayers), hinsert, World.withCache_self hreg₁]
  rw [storeCompiled, execute_bind_ok (execute_debug _ w), execute_bind_ok (execute_debug _ w),
    execute_bind_ok hnew, execute_bind_ok hupdate, hnew]
  rfl

/-- **Without a cache** a factory is compiled by the rule, and the plan is stored as one more. -/
theorem execute_compileNamed_off (hf : reg.factory? (w.definitions.nameOf f) = some f)
    (dynamic : List String) : (compileNamed r f dynamic).execute w =
      (liftExcept (w.compile (.own reg.globals) f dynamic) >>=
        storeAnother (w.definitions.nameOf f, dynamic)).execute w := by
  have hrefresh : reg.cache.refresh reg.generation = reg.cache := by
    simp [PlanCache.refresh, hoff]
  have hnone : reg.cache.plan? (w.definitions.nameOf f, dynamic) = none := by
    simp [PlanCache.plan?, hoff]
  rw [execute_compileNamed hn hf, hrefresh, hnone, World.withCache_self hn.registry]
  dsimp only
  rw [compileMissing, execute_bind, execute_compileAnew_off hn hoff]
  rcases w.compile (.own reg.globals) f dynamic with e | plan
  · rfl
  · obtain ⟨layers, w₁, hplace, hu⟩ := execute_placeAll plan.layers w
    rw [execute_bind_ok (execute_liftExcept _ _), execute_bind_ok (execute_liftExcept _ _),
      execute_bind_ok hplace, storeAnother, execute_bind_ok hplace]
    exact execute_storeCompiled_off (hn.undisturbed hu) hoff _ _

end Uncached

/-! ## 3. Compiling and compiling again -/

/-- A plan that a cache gives, or that is compiled and put into it, is kept there. -/
theorem lookup_of_compileNamed (hn : w.Neat r reg) (henabled : reg.cache.enabled = true)
    (hf : reg.factory? (w.definitions.nameOf f) = some f) {dynamic : List String}
    (h : (compileNamed r f dynamic).execute w = (.ok p, w')) :
    ∃ c, w'.registryAt? r = some { reg with cache := c } ∧
      c.plans.lookup (w.definitions.nameOf f, dynamic) = some p := by
  have hreg := World.registryAt?_withCache hn.registry (reg.cache.refresh reg.generation)
  have hafter := cacheAfter_refresh reg
  rw [execute_compileNamed hn hf] at h
  generalize reg.cache.refresh reg.generation = c₀ at h hreg hafter
  have henabled₀ : c₀.enabled = true := hafter.enabled.trans henabled
  rcases hfound : c₀.plan? (w.definitions.nameOf f, dynamic) with _ | q <;> rw [hfound] at h
  · obtain ⟨stored, w₁, hanew, hstore⟩ := ok_of_execute_bind h
    have hplain₀ := hafter.plain hn.plain
    obtain ⟨_, c₁, _, hanew', _, hrenews, _, hrecached⟩ :=
      execute_compileAnew hreg hplain₀.handedPlans hplain₀.handedLayers dynamic rfl
    cases hanew.symm.trans hanew'
    have hplain₁ := (cacheAfter_renews hrenews).plain hplain₀
    obtain ⟨q, w₂, hstore', hrecached', _⟩ := execute_storeCompiled hrecached.registry
      hplain₁.handedPlans hplain₁.handedLayers (w.definitions.nameOf f, dynamic) stored
    cases hstore.symm.trans hstore'
    refine ⟨_, hrecached'.registry, ?_⟩
    obtain ⟨shared, placed, rfl⟩ := hrenews.kept
    rw [PlanCache.plan?, if_pos henabled₀] at hfound
    rw [PlanCache.lookup_insertPlan (by exact henabled₀) (by exact hfound), if_pos rfl]
  · cases h
    rw [PlanCache.plan?, if_pos henabled₀] at hfound
    exact ⟨c₀, hreg, hfound⟩

/-- **What was compiled is offered from then on.** -/
theorem offers_of_compileNamed (hn : w.Neat r reg)
    (hf : reg.factory? (w.definitions.nameOf f) = some f) {dynamic : List String}
    (h : (compileNamed r f dynamic).execute w = (.ok p, w')) :
    ∃ c, c.enabled = reg.cache.enabled ∧
      w'.Offers r { reg with cache := c } f (w.definitions.nameOf f, dynamic) p := by
  obtain ⟨_, c, _, hexec, hcompiled⟩ := compileNamed_spec hn hf dynamic
  cases h.symm.trans hexec
  have hn' := hcompiled.after.neat hn hcompiled.recached
  refine ⟨c, hcompiled.after.enabled, hn', hf, fun henabled => ?_, fun hoff => ?_⟩
  · have henabled : reg.cache.enabled = true := hcompiled.after.enabled.symm.trans henabled
    obtain ⟨c', hreg', hlookup⟩ := lookup_of_compileNamed hn henabled hf h
    cases hcompiled.recached.registry.symm.trans hreg'
    exact ⟨hcompiled.present henabled, hlookup⟩
  · have hoff : reg.cache.enabled = false := hcompiled.after.enabled.symm.trans hoff
    rw [execute_compileNamed_off hn hoff hf] at h
    obtain ⟨plan, w₁, hplan, hstore⟩ := ok_of_execute_bind h
    rw [execute_liftExcept] at hplan
    obtain ⟨hrule, rfl⟩ := Prod.mk.inj hplan
    obtain ⟨_, _, hstore', hp, -⟩ := execute_storeAnother (w.definitions.nameOf f, dynamic) plan w
    cases hstore.symm.trans hstore'
    refine ⟨plan, hp, ?_⟩
    rw [← hrule]
    exact World.compile_congr hn.definitions hcompiled.recached.definitions

/-- **What is offered is found again**, by nothing but a further look. -/
theorem execute_compileNamed_again (h : w.Offers r reg f key p) :
    (compileNamed r f key.2).execute w = (lookAgain reg.cache.enabled key p).execute w := by
  have hname : w.definitions.nameOf f = key.1 := h.neat.names.nameOf h.factory
  have hf : reg.factory? (w.definitions.nameOf f) = some f := by rw [hname, h.factory]
  have hkey : (w.definitions.nameOf f, key.2) = key := by rw [hname]
  unfold lookAgain
  cases henabled : reg.cache.enabled with
  | true =>
    obtain ⟨hgeneration, hlookup⟩ := h.kept henabled
    have hrefresh : reg.cache.refresh reg.generation = reg.cache := by
      simp [PlanCache.refresh, hgeneration]
    have hfound : reg.cache.plan? key = some p := by rw [PlanCache.plan?, if_pos henabled, hlookup]
    rw [execute_compileNamed h.neat hf, hrefresh, hkey, hfound, hname,
      World.withCache_self h.neat.registry]
    rfl
  | false =>
    obtain ⟨plan, hp, hplan⟩ := h.made henabled
    rw [execute_compileNamed_off h.neat henabled hf, hplan, hkey,
      execute_bind_ok (execute_liftExcept _ _)]
    simp only [Bool.false_eq_true, if_false, execute_bind_ok (execute_get w), hp]

/-! ## 4. What a run asks for -/

section Asking

variable {factory : Value} {traits : Option Value} {items : List Value}

/-- Traits that are given as a tuple are its items. -/
theorem execute_elementsOf_tuple (h : w.TraitsAre traits items) :
    (elementsOf traits).execute w = (.ok items, w) := by
  cases traits with
  | none =>
    cases h
    rfl
  | some v =>
    refine execute_elements_of_items? ?_
    have htuple : w.tuple? v = some items := h
    unfold World.tuple? at htuple
    unfold World.items?
    split at htuple
    · rename_i hobject
      rw [hobject, ← htuple]
    · cases htuple

/-- What is asked for depends on the names alone that are given. -/
theorem execute_named_tuple (h : w.TraitsAre traits items) (hkey : key.Spelled factory items)
    (hf : reg.factory? key.1 = some f) :
    (named reg factory traits).execute w = (.ok (f, key.2), w) := by
  have hread : (factoryName factory).execute w = (.ok key.1, w) := by
    rw [factoryName, nameOr, hkey.factory]
    rfl
  rw [named, execute_bind_ok hread, hf]
  dsimp only
  rw [execute_bind_ok (execute_elementsOf_tuple h), traitName,
    execute_bind_ok (execute_names hkey.traits w)]
  rfl

/-- **A compilation that succeeds** was asked for a registered factory, and is offered from then
on. -/
theorem offers_of_compile (hn : w.Neat r reg) (ht : w.TraitsAre traits items)
    (h : (compile r factory traits).execute w = (.ok p, w')) :
    (PlanKey.asked factory items).Spelled factory items ∧ ∃ f c,
      c.enabled = reg.cache.enabled ∧
      w'.Offers r { reg with cache := c } f (.asked factory items) p := by
  rw [execute_compile hn.registry hn.plain] at h
  obtain ⟨⟨f, dynamic⟩, w₁, hnamed, hcompile⟩ := ok_of_execute_bind h
  obtain ⟨⟨name, hname, hf⟩, vs, w₂, hvs, hnames⟩ := asks_of_named hnamed
  cases (execute_elementsOf_tuple ht).symm.trans hvs
  have hkey : PlanKey.Spelled (name, dynamic) factory items := ⟨hname, hnames⟩
  cases (execute_named_tuple ht hkey hf).symm.trans hnamed
  have hnameOf : w.definitions.nameOf f = name := hn.names.nameOf hf
  obtain ⟨c, henabled, hoffers⟩ := offers_of_compileNamed hn (by rw [hnameOf, hf]) hcompile
  rw [hkey.asked_eq]
  exact ⟨hkey, f, c, henabled, hnameOf ▸ hoffers⟩

/-- **To compile again what is offered** is to look it up again. -/
theorem execute_compile_again (h : w.Offers r reg f key p) (ht : w.TraitsAre traits items)
    (hkey : key.Spelled factory items) : (compile r factory traits).execute w =
      (lookAgain reg.cache.enabled key p).execute w := by
  rw [execute_compile h.neat.registry h.neat.plain,
    execute_bind_ok (execute_named_tuple ht hkey h.factory)]
  exact execute_compileNamed_again h

end Asking

/-! ## 5. Runs while nothing happens to the registry -/

end Action

/-- **Nothing has happened to a registry** but that something was compiled: all that its factories
read is still there, plans were only added, and a runner of the registry still is one. -/
structure World.Steadfast (r : RegistryId) (rid : RunnerId) (w w' : World) : Prop where
  registry : ∀ reg, w.Neat r reg → ∃ c, Action.CacheAfter reg c ∧
    w'.Neat r { reg with cache := c }
  definitions : ∀ reg name f, w.registryAt? r = some reg → reg.factory? name = some f →
    w.definitions.KeepsRead w'.definitions reg.globals (w.definitions.levels f)
  plans : ∀ p s, w.stored? p = some s → w'.stored? p = some s
  runner : Action.RunsOn w rid r → Action.RunsOn w' rid r

/-- Where nothing is disturbed nothing has happened to a registry. -/
theorem World.Undisturbed.steadfast {w w' : World} {r : RegistryId} {rid : RunnerId}
    (h : w.Undisturbed w') : Steadfast r rid w w' where
  registry reg hn := ⟨reg.cache, .refl reg, hn.undisturbed h⟩
  definitions _ _ _ _ _ := by
    rw [h.definitions]
    exact (Definitions.GrowsTo.refl _).keepsRead
  plans p s hp := (h.stored? p).trans hp
  runner hr := by
    unfold Action.RunsOn World.runner?
    rw [h.runners]
    exact hr

instance (w w' : World) : Decidable (w.Undisturbed w') :=
  decidable_of_iff (w'.registries = w.registries ∧ w'.definitions = w.definitions ∧
      w'.plans = w.plans ∧ w'.builders = w.builders ∧ w'.runners = w.runners)
    ⟨fun h => ⟨h.1, h.2.1, h.2.2.1, h.2.2.2.1, h.2.2.2.2⟩,
      fun h => ⟨h.registries, h.definitions, h.plans, h.builders, h.runners⟩⟩

theorem World.Offers.steadfast {w w' : World} {r : RegistryId} {rid : RunnerId} {reg : Registry}
    {f : DefinitionId} {key : PlanKey} {p : PlanId} (h : w.Offers r reg f key p)
    (hs : World.Steadfast r rid w w') : ∃ c, c.enabled = reg.cache.enabled ∧
      w'.Offers r { reg with cache := c } f key p := by
  obtain ⟨c, hafter, hn⟩ := hs.registry reg h.neat
  refine ⟨c, hafter.enabled, hn, h.factory, fun henabled => ?_, fun hoff => ?_⟩
  · obtain ⟨hgeneration, hlookup⟩ := h.kept (hafter.enabled.symm.trans henabled)
    exact ⟨hafter.generation.elim (·.trans hgeneration) id, hafter.plans hgeneration _ _ hlookup⟩
  · obtain ⟨plan, hp, hplan⟩ := h.made (hafter.enabled.symm.trans hoff)
    obtain ⟨stored, hstored, rfl⟩ := Option.map_eq_some_iff.mp hp
    have hkept := hs.definitions reg _ f h.neat.registry h.factory
    exact ⟨_, congrArg (Option.map StoredPlan.plan) (hs.plans p stored hstored),
      World.compile_kept h.neat.definitions hn.definitions hkept hplan⟩

namespace Action

/-- **Runs that leave the registry alone**: so does each evaluation, and what was given as a tuple of
traits is still that tuple before the next run. -/
def Restful (host : Host) (r : RegistryId) (rid : RunnerId) (input : RunInput)
    (items : List Value) : Nat → World → Prop
  | 0, _ => True
  | n + 1, w => w.TraitsAre input.traits items ∧ ∀ p w₁ v w₂,
    (compile r input.factory input.traits).execute w = (.ok p, w₁) →
    (evaluateRun host rid p input).execute w₁ = (.ok v, w₂) →
    World.Steadfast r rid w₁ w₂ ∧ Restful host r rid input items n w₂

/-- A run whose evaluation disturbs nothing leaves the registry alone. -/
theorem Restful.of_undisturbed {host : Host} {r : RegistryId} {rid : RunnerId} {input : RunInput}
    {items : List Value} {n : Nat} {w : World} {p : PlanId} (ht : w.TraitsAre input.traits items)
    (hp : ((compile r input.factory input.traits).execute w).1 = .ok p)
    (hu : ((compile r input.factory input.traits).execute w).2.Undisturbed
      ((evaluateRun host rid p input).execute
        ((compile r input.factory input.traits).execute w).2).2)
    (h : Restful host r rid input items n ((evaluateRun host rid p input).execute
      ((compile r input.factory input.traits).execute w).2).2) :
    Restful host r rid input items (n + 1) w := by
  refine ⟨ht, fun q w₁ v w₂ hcompile heval => ?_⟩
  rw [hcompile] at hp hu h
  cases hp
  rw [heval] at hu h
  exact ⟨hu.steadfast, h⟩

/-- **Evaluations in succession** of a plan that is compiled once, with a further look for each but
the first. -/
def evaluations (host : Host) (r : RegistryId) (rid : RunnerId) (input : RunInput)
    (again : PlanId → Action PlanId) (n : Nat) : Action (List Value) := do
  let p ← compile r input.factory input.traits
  let v ← evaluateRun host rid p input
  let vs ← (List.replicate n ()).mapM fun _ => do evaluateRun host rid (← again p) input
  return v :: vs

variable {host : Host} {rid : RunnerId} {input : RunInput} {items : List Value}

theorem execute_run_of (hr : RunsOn w rid r) : (run host rid input).execute w =
    (compile r input.factory input.traits >>= fun p => evaluateRun host rid p input).execute w := by
  rw [run, execute_bind_ok hr.execute]

/-- Further runs look again, and evaluate what they have found. -/
theorem execute_further (n : Nat) (h : w.Offers r reg f key p)
    (hkey : key.Spelled input.factory items) (hr : RunsOn w rid r)
    (hrest : Restful host r rid input items n w) :
    ((List.replicate n ()).mapM fun _ => run host rid input).execute w =
      ((List.replicate n ()).mapM fun _ => do
        evaluateRun host rid (← lookAgain reg.cache.enabled key p) input).execute w := by
  -- By induction on the number of runs; what is offered, is offered after each of them.
  induction n generalizing w reg with
  | zero => rfl
  | succ n ih =>
    obtain ⟨ht, hrest⟩ := hrest
    rw [List.replicate_succ, List.mapM_cons, List.mapM_cons]
    have hfirst : (run host rid input).execute w = (do
        evaluateRun host rid (← lookAgain reg.cache.enabled key p) input).execute w := by
      rw [execute_run_of hr, execute_bind, execute_bind, execute_compile_again h ht hkey]
    rw [execute_bind, execute_bind, hfirst]
    obtain ⟨q, w₁, hlook, h₁, hrunners⟩ := offers_lookAgain h
    rw [execute_bind_ok hlook]
    rcases heval : (evaluateRun host rid q input).execute w₁ with ⟨e | v, w₂⟩
    · rfl
    · obtain ⟨hsteadfast, hrest'⟩ :=
        hrest q w₁ v w₂ ((execute_compile_again h ht hkey).trans hlook) heval
      obtain ⟨c, henabled, h₂⟩ := h₁.steadfast hsteadfast
      have hr₁ : RunsOn w₁ rid r := by
        unfold RunsOn World.runner?
        rw [hrunners]
        exact hr
      have hrest₂ := ih h₂ (hsteadfast.runner hr₁) hrest'
      dsimp only at hrest₂ ⊢
      rw [execute_bind, execute_bind, hrest₂, henabled]

/-- **Runs in succession compile once** and then look again before each evaluation. -/
theorem execute_runs (n : Nat) (hn : w.Neat r reg) (hr : RunsOn w rid r)
    (hrest : Restful host r rid input items (n + 1) w) :
    ((List.replicate (n + 1) ()).mapM fun _ => run host rid input).execute w =
      (evaluations host r rid input
        (lookAgain reg.cache.enabled (.asked input.factory items)) n).execute w := by
  obtain ⟨ht, hrest⟩ := hrest
  rw [List.replicate_succ, List.mapM_cons, evaluations, execute_bind, execute_run_of hr,
    execute_bind, execute_bind]
  rcases hcompile : (compile r input.factory input.traits).execute w with ⟨e | p, w₁⟩
  · rfl
  · obtain ⟨hkey, f, c, henabled, h⟩ := offers_of_compile hn ht hcompile
    dsimp only
    rw [execute_bind]
    rcases heval : (evaluateRun host rid p input).execute w₁ with ⟨e | v, w₂⟩
    · rfl
    · obtain ⟨hsteadfast, hrest'⟩ := hrest p w₁ v w₂ hcompile heval
      obtain ⟨c', henabled', h₂⟩ := h.steadfast hsteadfast
      have hr₁ : RunsOn w₁ rid r := by
        have hrunners := (idles_compile r input.factory input.traits w).runners
        rw [hcompile] at hrunners
        unfold RunsOn World.runner?
        rw [hrunners]
        exact hr
      have hfurther := execute_further n h₂ hkey (hsteadfast.runner hr₁) hrest'
      dsimp only
      rw [execute_bind, execute_bind, hfurther, henabled', henabled]

/-- **A list of runs compiles once** and evaluates the plan again and again. -/
theorem execute_runList (host : Host) (input : RunInput) (n : Nat) (hr : RunsOn w rid r) :
    (runList host rid (.int (n + 1)) input).execute w =
      (evaluations host r rid input pure n >>= fun vs => alloc (.list vs)).execute w := by
  have hcount : requireCount (.int (n + 1)) = pure () := by
    have hnot : ¬ (n + 1 : Int) < 0 := by omega
    simp only [requireCount, Value.asInt?, if_neg hnot]
  have htimes : (n + 1 : Int).toNat = n + 1 := by omega
  rw [runList, hcount, execute_bind_ok (execute_pure _ w), execute_bind_ok hr.execute, evaluations,
    bind_assoc]
  simp only [Value.asInt?, htimes, List.replicate_succ, List.mapM_cons, bind_assoc, pure_bind]

end Action

/-! ## 6. Where only the log may differ -/

/-- Here it does not matter what has been logged, and all else does. -/
local instance Scrutiny.butLog : Scrutiny := ⟨True, False⟩

namespace World

variable {w w' : World}

/-- Worlds that are alike but for the log are the same but for the log. -/
theorem Alike.eq_but_log (h : w.Alike w') : w' = { w with log := w'.log } := by
  have hregistries : w'.registries = w.registries := by
    refine Array.ext_getElem? fun i => ?_
    show w'.registryAt? ⟨i⟩ = w.registryAt? ⟨i⟩
    obtain ⟨hnone, hnone'⟩ | ⟨reg, reg', hreg, hreg', hlike⟩ := h.registryAt? ⟨i⟩
    · rw [hnone, hnone']
    · rw [hreg, hreg', hlike.same trivial]
  have hrest := h.rest
  rw [hregistries] at hrest
  exact hrest

/-- A family keeps its cache to itself. -/
theorem secluded_family : family.Secluded := by
  have hafter : ∀ {w : World} (c : Command), w.Secluded → (w.after c).Secluded := fun c hw =>
    Action.secludes_performCommand (@Host.uniform_exhausted Scrutiny.butCounts) c _ hw
  exact hafter _ (hafter _ (hafter _ (hafter _ (hafter _ secluded_fresh))))

/-- More may be logged in one of the worlds. -/
theorem Alike.logs (h : w.Alike w') (entry : LogEntry) :
    w.Alike { w' with log := w'.log.push entry } where
  rest := by
    have hrest := h.rest
    generalize w'.registries = registries, w'.log = log at hrest
    subst hrest
    rfl
  log := False.elim
  size := h.size
  like := h.like

end World

namespace Action

variable {w w' : World} {r : RegistryId} {reg : Registry} {host : Host} {rid : RunnerId}
  {input : RunInput} {items : List Value}

/-- Evaluations do not notice that the plan is looked up again, if the log does not matter to them. -/
theorem agree_further (hhost : host.Uniform) (key : PlanKey) (p : PlanId) (n : Nat)
    (h : w.Alike w') :
    Agree (fun _ => True)
      (((List.replicate n ()).mapM fun _ => do
        evaluateRun host rid (← pure p) input).execute w)
      (((List.replicate n ()).mapM fun _ => do
        evaluateRun host rid (← lookAgain true key p) input).execute w') := by
  induction n generalizing w w' with
  | zero => exact .ok trivial h
  | succ n ih =>
    rw [List.replicate_succ, List.mapM_cons, List.mapM_cons]
    have hlogged : w.Alike (logged w' (hitMessage key)) := h.logs _
    refine agree_bind (uniform_evaluateRun hhost rid p input w _ hlogged)
      fun v w₁ w₁' _ _ _ h₁ => ?_
    exact agree_bind (ih h₁) fun vs w₂ w₂' _ _ _ h₂ => .ok trivial h₂

theorem agree_evaluations (hhost : host.Uniform) (r : RegistryId) (key : PlanKey) (n : Nat)
    (h : w.Alike w') :
    Agree (fun _ => True) ((evaluations host r rid input pure n).execute w)
      ((evaluations host r rid input (lookAgain true key) n).execute w') := by
  refine agree_bind (uniform_compile r input.factory input.traits w w' h)
    fun p w₁ w₁' _ _ _ h₁ => ?_
  refine agree_bind (uniform_evaluateRun hhost rid p input w₁ w₁' h₁)
    fun v w₂ w₂' _ _ _ h₂ => ?_
  exact agree_bind (agree_further hhost key p n h₂) fun vs w₃ w₃' _ _ _ h₃ => .ok trivial h₃

/-- What runs of a child of a family are asked for. -/
def childInput : RunInput := { strategy := .text "attributes_for", factory := .text "child" }

theorem restful_family : Restful (.tower .idle 1) ⟨0⟩ ⟨0⟩ childInput [] 2 .family := by
  have hp : ((compile ⟨0⟩ childInput.factory childInput.traits).execute .family).1 = .ok ⟨0⟩ := by
    decide +kernel
  refine .of_undisturbed rfl hp (by decide +kernel) ?_
  exact .of_undisturbed (p := ⟨0⟩) rfl (by decide +kernel) (by decide +kernel) trivial

/-- A function that remembers the plan that it is first called under, and tells whether that is the
plan that it is called under. -/
def planSpy : Function where
  name := "spy"
  body
    | [context] =>
      .request (.getAttr context "_evaluation") fun evaluation =>
      .request (.getAttr evaluation "plan") fun plan =>
      .ask (.variable "first") fun
        | .ok first => .done (.bool (first = plan))
        | .error _ => .request (.bind "first" plan) fun _ => .done (.bool true)
    | _ => .done .null

/-- A session without a cache, with a factory that has the spy for an attribute. -/
def spied : World :=
  (({ World.fresh with functions := #[planSpy] }.after
    (.setCache (some (.registry ⟨0⟩)) (.bool false))).after
    (.defineFactory (some (.registry ⟨0⟩)) (.text "user") .null .null none)).after
    (.set (.builder ⟨0⟩) (.text "same") none (.function ⟨0⟩))

/-- What the spy has told, run by run. -/
def toldBySpy (runs : Action (List Value)) : Action (List Value) := do
  (← runs).mapM fun attributes => getItem (.ofDepth 3) attributes (.text "same")

end Action

end TraitFactory
