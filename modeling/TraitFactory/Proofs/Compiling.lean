import TraitFactory.Proofs.Apart
import TraitFactory.Proofs.Caching

/-!
# Compilation through the cache

`Action.compile` reads its arguments, looks into the cache and compiles what is not there. In a
coherent registry with a sound cache the outcome is that of `World.compile`, the rule without a
cache: the plan that it gives, or its failure. The cache is sound afterwards, whatever came of it.
-/

namespace TraitFactory

/-! ## 1. Worlds with plain definitions and a plain registry -/

/-- **Nothing that was compiled still counts** in a registry: its cache is empty or belongs to an
older generation. -/
def Registry.Fresh (reg : Registry) : Prop :=
  reg.cache.generation = reg.generation → reg.cache.shared = ∅ ∧ reg.cache.plans = []

namespace World

/-- **A world whose definitions are plain, with a plain registry** in which factories stand under
their own names. -/
structure Neat (w : World) (r : RegistryId) (reg : Registry) : Prop where
  registry : w.registryAt? r = some reg
  plain : reg.Plain
  definitions : w.definitions.Plain
  names : w.NamesKept reg

/-- A world in which a registry has another cache. -/
def withCache (w : World) (r : RegistryId) (c : PlanCache) : World :=
  w.modifyRegistry r fun reg => { reg with cache := c }

variable {w w' : World} {r : RegistryId} {reg : Registry} {c : PlanCache}

theorem registryAt?_modifyRegistry (h : w.registryAt? r = some reg) (f : Registry → Registry) :
    (w.modifyRegistry r f).registryAt? r = some (f reg) := by
  show (w.registries.modify r.index f)[r.index]? = some (f reg)
  rw [Array.getElem?_modify, if_pos rfl]
  exact congrArg (Option.map f) h

theorem registryAt?_withCache (h : w.registryAt? r = some reg) (c : PlanCache) :
    (w.withCache r c).registryAt? r = some { reg with cache := c } :=
  registryAt?_modifyRegistry h _

/-- **A world after a compilation**: but for the cache of one registry nothing has changed that
was there before. -/
structure Recached (r : RegistryId) (reg : Registry) (c : PlanCache) (w w' : World) : Prop where
  registry : w'.registryAt? r = some { reg with cache := c }
  definitions : w'.definitions = w.definitions
  plans : ∀ p s, w.stored? p = some s → w'.stored? p = some s
  builders : w'.builders = w.builders

theorem Recached.extends (h : Recached r reg c w w') : w'.Extends w :=
  ⟨by rw [h.definitions]; exact .refl _, h.plans⟩

theorem Recached.undisturbed {w'' : World} (h : Recached r reg c w w') (hu : w'.Undisturbed w'') :
    Recached r reg c w w'' where
  registry := (hu.registryAt? r).trans h.registry
  definitions := hu.definitions.trans h.definitions
  plans p s hs := (hu.stored? p).trans (h.plans p s hs)
  builders := hu.builders.trans h.builders

theorem Recached.trans {w'' : World} {c' : PlanCache} (h : Recached r reg c w w')
    (h' : Recached r { reg with cache := c } c' w' w'') : Recached r reg c' w w'' where
  registry := h'.registry
  definitions := h'.definitions.trans h.definitions
  plans p s hs := h'.plans p s (h.plans p s hs)
  builders := h'.builders.trans h.builders

theorem recached_withCache (h : w.registryAt? r = some reg) (c : PlanCache) :
    Recached r reg c w (w.withCache r c) :=
  ⟨registryAt?_withCache h c, rfl, fun _ _ hs => hs, rfl⟩

/-- What disturbs nothing leaves the cache as it is. -/
theorem Undisturbed.recached (hu : w.Undisturbed w') (h : w.registryAt? r = some reg) :
    Recached r reg reg.cache w w' where
  registry := (hu.registryAt? r).trans h
  definitions := hu.definitions
  plans p _ hs := (hu.stored? p).trans hs
  builders := hu.builders

theorem Neat.undisturbed (h : w.Neat r reg) (hu : w.Undisturbed w') : w'.Neat r reg where
  registry := (hu.registryAt? r).trans h.registry
  plain := h.plain
  definitions := hu.definitions ▸ h.definitions
  names := by
    unfold NamesKept
    rw [hu.definitions]
    exact h.names

end World

namespace Action

variable {w w' : World} {r : RegistryId} {reg : Registry}

/-! ## 2. Reading and changing the cache -/

theorem execute_getRegistry (h : w.registryAt? r = some reg) :
    (getRegistry r).execute w = (.ok reg, w) := by
  rw [getRegistry, execute_bind_ok (execute_get w), h]
  rfl

theorem execute_getDefinition {d : DefinitionId} {definition : Definition}
    (h : w.definitions.get? d = some definition) :
    (getDefinition d).execute w = (.ok definition, w) := by
  rw [getDefinition, execute_bind_ok (execute_get w), h]
  rfl

/-- A cache that has handed nothing out is just replaced. -/
theorem execute_updateCache (h : w.registryAt? r = some reg) (f : PlanCache → PlanCache)
    (hplans : reg.cache.handedPlans = none) (hlayers : reg.cache.handedLayers = none)
    (hplans' : (f reg.cache).handedPlans = none) (hlayers' : (f reg.cache).handedLayers = none) :
    (updateCache r f).execute w = (.ok ⟨⟩, w.withCache r (f reg.cache)) := by
  -- Nothing was handed out, so there is nothing to read back and nothing to renew.
  have hrecalled : w.recalled reg.cache = reg.cache := by
    simp [World.recalled, World.handedEntries?, hplans, hlayers]
  have hrenew : ∀ {α : Type} [DecidableEq α] (shown : World → List (Value × Value) → α) (is : α)
      (entries : Action (List (Value × Value))) (w : World),
      (renewHanded none shown is entries).execute w = (.ok ⟨⟩, w) := fun _ _ _ _ => rfl
  rw [updateCache, execute_bind_ok (execute_getRegistry h), execute_bind_ok (execute_get w)]
  simp only [hrecalled, hplans', hlayers']
  have hmodify : (Parts.modifyCache r fun _ => f reg.cache).execute w =
      (.ok ⟨⟩, w.withCache r (f reg.cache)) := rfl
  rw [execute_bind_ok hmodify, execute_bind_ok (hrenew _ _ _ _)]
  exact hrenew _ _ _ _

/-- Objects for some layers. -/
theorem execute_placeAll (layers : List Layer) (w : World) :
    ∃ objects w', (layers.mapM fun l => place (.layer l)).execute w = (.ok objects, w') ∧
      w.Undisturbed w' := by
  induction layers generalizing w with
  | nil => exact ⟨[], w, rfl, Frame.undisturbed.refl w⟩
  | cons l ls ih =>
    have hplace := (apart_place (.layer l)).keeps w
    rcases hexec : (place (.layer l)).execute w with ⟨e | o, w₁⟩
    · cases hexec
    rw [hexec] at hplace
    obtain ⟨objects, w', hrest, hu⟩ := ih w₁
    refine ⟨o :: objects, w', ?_, Frame.undisturbed.trans hplace hu⟩
    rw [List.mapM_cons, execute_bind_ok hexec, execute_bind_ok hrest]
    rfl

/-- Giving layers their objects does not fail, disturbs nothing, and changes in a cache only which
objects those are. -/
theorem placeStatic_spec (ds : Definitions) (levels : List DefinitionId) (c : PlanCache)
    (w : World) : ∃ kept placed w', (placeStatic ds levels c).execute w =
      (.ok (kept, { c with placed := placed }), w') ∧ w.Undisturbed w' := by
  induction levels with
  | nil => exact ⟨[], c.placed, w, rfl, Frame.undisturbed.refl w⟩
  | cons level older ih =>
    -- Layers that have their objects keep them; others get theirs on top of the older levels'.
    rcases hplaced : c.placed.get? (ds.nameOf level) with _ | objects
    · obtain ⟨above, placed, w₁, hexec, hu⟩ := ih
      simp only [placeStatic, hplaced, execute_bind_ok hexec]
      rcases hplaced' : placed.get? (ds.nameOf level) with _ | objects
      · rcases hshared : c.shared.get? (ds.nameOf level) with _ | layers
        · exact ⟨above, placed, w₁, rfl, hu⟩
        · obtain ⟨added, w₂, hadded, hu'⟩ := execute_placeAll (layers.drop above.length) w₁
          refine ⟨above ++ added, placed.insert (ds.nameOf level) (above ++ added), w₂, ?_,
            Frame.undisturbed.trans hu hu'⟩
          rw [execute_bind_ok hadded]
          rfl
      · exact ⟨objects, placed, w₁, rfl, hu⟩
    · simp only [placeStatic, hplaced]
      exact ⟨objects, c.placed, w, rfl, Frame.undisturbed.refl w⟩

/-! ## 3. Compiling what is not in the cache -/

theorem execute_liftExcept {α : Type} (x : Except Failure α) (w : World) :
    (liftExcept x).execute w = (x, w) := by
  cases x <;> rfl

/-- **Compiling anew** comes to the plan on the static layers that the cache gives, and leaves the
cache as it gave them. -/
theorem execute_compileAnew (hreg : w.registryAt? r = some reg)
    (hplans : reg.cache.handedPlans = none) (hlayers : reg.cache.handedLayers = none)
    {global : Slot (Table DefinitionId)} {f : DefinitionId} (dynamic : List String)
    {inherited : Except Failure (List Layer)} {c₁ : PlanCache}
    (hcached : w.cachedStaticLayers global
      (w.definitions.foundation (w.definitions.lineage f)) (w.definitions.levels f) reg.cache =
        (inherited, c₁)) :
    ∃ outcome c w', (compileAnew r global f dynamic).execute w = (outcome, w') ∧
      outcome.map (·.plan) = inherited.bind (w.planOn global f dynamic) ∧
      PlanCache.Renews reg.cache c ∧ c.shared = c₁.shared ∧ World.Recached r reg c w w' := by
  have hrenews := w.cachedStaticLayers_renews global
    (w.definitions.foundation (w.definitions.lineage f)) (w.definitions.levels f) reg.cache
  rw [hcached] at hrenews
  -- The objects that the static layers are.
  obtain ⟨kept, c₂, w₁, hkept, hrenews', hshared, hu⟩ : ∃ kept c₂ w₁,
      (if c₁.enabled then placeStatic w.definitions (w.definitions.levels f) c₁
        else pure ([], c₁)).execute w = (.ok (kept, c₂), w₁) ∧
      PlanCache.Renews c₁ c₂ ∧ c₂.shared = c₁.shared ∧ w.Undisturbed w₁ := by
    split
    · rename_i henabled
      obtain ⟨kept, placed, w₁, hexec, hu⟩ :=
        placeStatic_spec w.definitions (w.definitions.levels f) c₁ w
      exact ⟨kept, _, w₁, hexec, ⟨⟨c₁.shared, placed, rfl⟩, by simp [henabled]⟩, rfl, hu⟩
    · exact ⟨[], c₁, w, rfl, .refl c₁, rfl, Frame.undisturbed.refl w⟩
  have hrenews := hrenews.trans hrenews'
  have hreg₁ : w₁.registryAt? r = some reg := (hu.registryAt? r).trans hreg
  have hupdate : (updateCache r fun _ => c₂).execute w₁ = (.ok ⟨⟩, w₁.withCache r c₂) := by
    obtain ⟨shared, placed, rfl⟩ := hrenews.kept
    exact execute_updateCache hreg₁ _ hplans hlayers hplans hlayers
  have hrecached : World.Recached r reg c₂ w (w₁.withCache r c₂) :=
    ⟨World.registryAt?_withCache hreg₁ c₂, hu.definitions,
      fun p s h => (hu.stored? p).trans h, hu.builders⟩
  -- What is left is the plan on these layers, with objects for the layers of its own.
  have hexec : (compileAnew r global f dynamic).execute w =
      (do
        let plan ← liftExcept (inherited.bind (w.planOn global f dynamic))
        let added ← (plan.layers.drop kept.length).mapM fun l => place (.layer l)
        return (⟨plan, kept ++ added⟩ : StoredPlan)).execute (w₁.withCache r c₂) := by
    unfold compileAnew
    rw [execute_bind_ok (execute_get w)]
    dsimp only
    rw [execute_bind_ok (execute_getRegistry hreg)]
    rw [Definitions.levels] at hcached hkept
    simp only [hcached]
    split at hkept
    · rw [if_pos ‹_›, execute_bind_ok hkept, execute_bind_ok hupdate]
    · rw [if_neg ‹_›, execute_bind_ok hkept, execute_bind_ok hupdate]
  rcases hplan : inherited.bind (w.planOn global f dynamic) with e | plan
  · refine ⟨.error e, c₂, w₁.withCache r c₂, ?_, rfl, hrenews, hshared, hrecached⟩
    rw [hexec, hplan]
    exact execute_bind_error (execute_liftExcept _ _)
  · obtain ⟨added, w₃, hadded, hu'⟩ :=
      execute_placeAll (plan.layers.drop kept.length) (w₁.withCache r c₂)
    refine ⟨.ok ⟨plan, kept ++ added⟩, c₂, w₃, ?_, rfl, hrenews, hshared,
      hrecached.undisturbed hu'⟩
    rw [hexec, hplan, execute_bind_ok (execute_liftExcept _ _), execute_bind_ok hadded]
    rfl

/-! ## 4. Compiling through the cache -/

/-- What the log tells of a plan that was compiled. -/
def compiledMessage (key : PlanKey) (plan : Plan) : String :=
  let summary := s!"{plan.layers.length} layers, {plan.attributes.length} attributes"
  s!"Compiled plan for {key.1} with traits {traitsText key.2}: {summary}"

/-- Stores a plan that has been compiled, and keeps it in the cache. -/
def storeCompiled (r : RegistryId) (key : PlanKey) (stored : StoredPlan) : Action PlanId := do
  debug resolverLogger (compiledMessage key stored.plan)
  let p ← newPlan stored
  updateCache r fun c => c.insertPlan key p
  return p

/-- Compiles a plan that is not in the cache. -/
def compileMissing (r : RegistryId) (traits : Slot (Table DefinitionId)) (f : DefinitionId)
    (key : PlanKey) : Action PlanId := do
  storeCompiled r key (← compileAnew r traits f key.2)

/-- **What the compiler does for a factory and the names of call-time traits**: it looks for their
plan in the cache and compiles it if it is not there. -/
def compileNamed (r : RegistryId) (f : DefinitionId) (dynamic : List String) : Action PlanId := do
  let name := (← get).definitions.nameOf f
  let key : PlanKey := (name, dynamic)
  let registry ← getRegistry r
  updateCache r fun c => c.refresh registry.generation
  let cache := (← getRegistry r).cache
  requireCacheKey cache f
  match cache.plan? key with
  | some p =>
    debug resolverLogger s!"Plan cache hit for {name} with traits {traitsText dynamic}"
    return p
  | none => compileMissing r registry.traits f key

/-- The definition and the trait names that a call of the compiler means. -/
def named (reg : Registry) (factory : Value) (traits : Option Value) :
    Action (DefinitionId × List String) := do
  let name ← factoryName factory
  match reg.factory? name with
  | some f => return (f, ← (← elementsOf traits).mapM traitName)
  | none => fail (.factoryNotFound name)

theorem apart_named (reg : Registry) (factory : Value) (traits : Option Value) :
    Apart (named reg factory traits) := by
  refine apart_bind (apart_factoryName factory) fun name => ?_
  split
  · exact apart_bind (apart_elementsOf traits) fun vs =>
      apart_bind (apart_mapM fun v _ => apart_traitName v) fun names => apartWith_pure trivial
  · exact apartWith_fail _

/-- **Compilation is reading the arguments, then compiling what they name.** -/
theorem execute_compile (hreg : w.registryAt? r = some reg) (hplain : reg.Plain) (factory : Value)
    (traits : Option Value) :
    (compile r factory traits).execute w =
      (named reg factory traits >>= fun x => compileNamed r x.1 x.2).execute w := by
  obtain ⟨table, htable, hfactory⟩ := hplain.factories_eq
  have hresolver : (resolverOf r).execute w = (.ok r, w) := by
    rw [resolverOf, execute_bind_ok (execute_getRegistry hreg), hplain.resolver]
    rfl
  -- The registry compiles through its own cache and looks definitions up in itself.
  have hsource : (sourceOf r).execute w = (.ok r, w) := by
    rw [sourceOf, execute_bind_ok (execute_getRegistry hreg), hplain.source]
    rfl
  rw [compile, execute_bind_ok hresolver, compileBy, execute_bind_ok hsource, findFactoryValue,
    named, bind_assoc, bind_assoc]
  -- Both read the name first, and then look it up in the registry's own table.
  rcases hname : (factoryName factory).execute w with ⟨e | name, w₁⟩
  · rw [execute_bind_error hname, execute_bind_error hname]
  · have hu := (apart_factoryName factory).keeps w
    rw [hname] at hu
    have hreg₁ : w₁.registryAt? r = some reg := (hu.registryAt? r).trans hreg
    rw [execute_bind_ok hname, execute_bind_ok hname, bind_assoc,
      execute_bind_ok (execute_getRegistry hreg₁), hfactory]
    have hdefined : (definedUnder? reg.factories name).execute w₁ =
        (.ok ((table.get? name).map .definition), w₁) := by
      rw [definedUnder?, execute_bind_ok (execute_get w₁), htable]
      rfl
    rw [bind_assoc, execute_bind_ok hdefined]
    cases table.get? name with
    | none => rfl
    | some f =>
      simp only [Option.map_some, pure_bind, requireDefinition, bind_assoc]
      rfl

theorem isKey_text (w : World) (s : String) : w.isKey (.text s) = true := rfl

/-- The name of a plain definition can be a key. -/
theorem execute_requireCacheKey (hw : w.definitions.Plain) {f : DefinitionId}
    {definition : Definition} (hd : w.definitions.get? f = some definition) (c : PlanCache) :
    (requireCacheKey c f).execute w = (.ok ⟨⟩, w) := by
  rw [requireCacheKey, execute_bind_ok (execute_getDefinition hd), execute_bind_ok (execute_get w),
    (hw f definition hd).nameValue_eq, isKey_text]
  simp
  rfl

/-- **What a compilation leaves of a cache**: whether it is on, where it looks definitions up, and
every plan that still counts. -/
structure CacheAfter (reg : Registry) (c : PlanCache) : Prop where
  enabled : c.enabled = reg.cache.enabled
  source : c.registry = reg.cache.registry
  handedPlans : c.handedPlans = reg.cache.handedPlans
  handedLayers : c.handedLayers = reg.cache.handedLayers
  generation : c.generation = reg.cache.generation ∨ c.generation = reg.generation
  plans : reg.cache.generation = reg.generation → ∀ key p,
    reg.cache.plans.lookup key = some p → c.plans.lookup key = some p

/-- The outcome of a compilation is that of the rule: the failure, or a plan which has been stored,
and which is kept under its key by a cache that is on. -/
def Outcome (w : World) (reg : Registry) (f : DefinitionId) (key : PlanKey) (c : PlanCache)
    (w' : World) : Except Failure PlanId → Prop
  | .error e => w.compile (.own reg.globals) f key.2 = .error e
  | .ok p => ∃ plan, w.compile (.own reg.globals) f key.2 = .ok plan ∧
      w'.plan? p = some plan ∧
      (c.enabled = true → c.generation = reg.generation ∧ c.plans.lookup key = some p)

theorem CacheAfter.refl (reg : Registry) : CacheAfter reg reg.cache :=
  ⟨rfl, rfl, rfl, rfl, .inl rfl, fun _ _ _ h => h⟩

theorem CacheAfter.trans {c c' : PlanCache} (h : CacheAfter reg c)
    (h' : CacheAfter { reg with cache := c } c') : CacheAfter reg c' where
  enabled := h'.enabled.trans h.enabled
  source := h'.source.trans h.source
  handedPlans := h'.handedPlans.trans h.handedPlans
  handedLayers := h'.handedLayers.trans h.handedLayers
  generation := by
    rcases h'.generation with h' | h'
    · exact h.generation.imp h'.trans h'.trans
    · exact .inr h'
  plans hgen key p hp := by
    have hsame : c.generation = reg.generation := h.generation.elim (·.trans hgen) id
    exact h'.plans hsame key p (h.plans hgen key p hp)

theorem CacheAfter.plain {c : PlanCache} (h : CacheAfter reg c) (hplain : reg.Plain) :
    { reg with cache := c }.Plain where
  factories := hplain.factories
  traits := hplain.traits
  resolver := hplain.resolver
  source := h.source.trans hplain.source
  handedPlans := h.handedPlans.trans hplain.handedPlans
  handedLayers := h.handedLayers.trans hplain.handedLayers

/-- A world stays neat through a compilation. -/
theorem CacheAfter.neat {c : PlanCache} (h : CacheAfter reg c) (hn : w.Neat r reg)
    (hr : World.Recached r reg c w w') : w'.Neat r { reg with cache := c } where
  registry := hr.registry
  plain := h.plain hn.plain
  definitions := hr.definitions ▸ hn.definitions
  names := by
    unfold World.NamesKept
    rw [hr.definitions]
    exact hn.names

theorem cacheAfter_refresh (reg : Registry) :
    CacheAfter reg (reg.cache.refresh reg.generation) := by
  unfold PlanCache.refresh
  split
  · rename_i h
    have hne : reg.cache.generation ≠ reg.generation := by simpa using (Bool.and_eq_true_iff.mp h).2
    exact ⟨rfl, rfl, rfl, rfl, .inr rfl, fun heq => absurd heq hne⟩
  · exact ⟨rfl, rfl, rfl, rfl, .inl rfl, fun _ _ _ h => h⟩

/-- A cache that is on belongs to the present generation once it has been refreshed. -/
theorem generation_refresh {c : PlanCache} (hc : c.enabled = true) (generation : Int) :
    (c.refresh generation).generation = generation := by
  unfold PlanCache.refresh
  split
  · rfl
  · rename_i h
    simpa [hc] using h

theorem sound_refresh (hs : reg.cache.generation = reg.generation → reg.cache.Sound w reg)
    (h : (reg.cache.refresh reg.generation).generation = reg.generation) :
    (reg.cache.refresh reg.generation).Sound w reg := by
  unfold PlanCache.refresh at h ⊢
  split
  · exact World.sound_of_empty rfl rfl
  · rename_i hne
    rw [if_neg hne] at h
    exact hs h

theorem cacheAfter_renews {c : PlanCache} (h : PlanCache.Renews reg.cache c) :
    CacheAfter reg c := by
  obtain ⟨shared, placed, rfl⟩ := h.kept
  exact ⟨rfl, rfl, rfl, rfl, .inl rfl, fun _ _ _ h => h⟩

theorem CacheAfter.insertPlan {c : PlanCache} (h : CacheAfter reg c) {key : PlanKey}
    (hnone : c.plan? key = none) (p : PlanId) : CacheAfter reg (c.insertPlan key p) := by
  by_cases henabled : c.enabled = true
  · rw [PlanCache.plan?, if_pos henabled] at hnone
    -- The new plan stands last, and no plan was kept under its key.
    have hplans : ∀ k q, c.plans.lookup k = some q →
        (c.insertPlan key p).plans.lookup k = some q := by
      intro k q hq
      rw [PlanCache.lookup_insertPlan henabled hnone]
      split
      · rename_i hk
        rw [hk, hnone] at hq
        cases hq
      · exact hq
    have hinsert : c.insertPlan key p = { c with plans := c.plans ++ [(key, p)] } := if_pos henabled
    refine ⟨?_, ?_, ?_, ?_, ?_, fun heq k q hq => hplans k q (h.plans heq k q hq)⟩ <;> rw [hinsert]
    · exact h.enabled
    · exact h.source
    · exact h.handedPlans
    · exact h.handedLayers
    · exact h.generation
  · rwa [PlanCache.insertPlan, if_neg henabled]

/-- A world in whose log the resolver has told something. -/
def logged (w : World) (message : String) : World :=
  { w with log := w.log.push ⟨.debug, resolverLogger, message⟩ }

theorem execute_debug (message : String) (w : World) :
    (debug resolverLogger message).execute w = (.ok ⟨⟩, logged w message) := rfl

theorem undisturbed_logged (w : World) (message : String) : w.Undisturbed (logged w message) :=
  ⟨rfl, rfl, rfl, rfl, rfl⟩

/-- A plan that is stored is there, and those before it stay. -/
theorem execute_newPlan (s : StoredPlan) (w : World) :
    ∃ p w', (newPlan s).execute w = (.ok p, w') ∧ w'.stored? p = some s ∧
      w'.registries = w.registries ∧ w'.definitions = w.definitions ∧
      w'.builders = w.builders ∧ ∀ q s', w.stored? q = some s' → w'.stored? q = some s' := by
  refine ⟨⟨w.plans.size⟩, { w with plans := w.plans.push s }, rfl, ?_, rfl, rfl, rfl,
    fun q s' hq => ?_⟩
  · exact Array.getElem?_push_size
  · have hlt : q.index < w.plans.size := (Array.getElem?_eq_some_iff.mp hq).1
    show (w.plans.push s)[q.index]? = some s'
    rw [Array.getElem?_push_lt hlt]
    exact (Array.getElem?_eq_getElem hlt).symm.trans hq

/-- Storing a plan does not fail, and the plan is found in the world and in the cache. -/
theorem execute_storeCompiled (hreg : w.registryAt? r = some reg)
    (hplans : reg.cache.handedPlans = none) (hlayers : reg.cache.handedLayers = none)
    (key : PlanKey) (stored : StoredPlan) :
    ∃ p w', (storeCompiled r key stored).execute w = (.ok p, w') ∧
      World.Recached r reg (reg.cache.insertPlan key p) w w' ∧
      w'.plan? p = some stored.plan := by
  -- An entry of the log disturbs nothing; the plan is stored in the world after it.
  obtain ⟨p, w₁, hnew, hstored, hregistries, hdefinitions, hbuilders, hkept⟩ :=
    execute_newPlan stored (logged w (compiledMessage key stored.plan))
  have hreg₁ : w₁.registryAt? r = some reg := by
    rw [World.registryAt?, hregistries]
    exact hreg
  -- Whatever the cache does with the plan, it hands nothing out.
  obtain ⟨plans, hinsert⟩ : ∃ plans, reg.cache.insertPlan key p =
      { reg.cache with plans := plans } := by
    unfold PlanCache.insertPlan
    split
    · exact ⟨_, rfl⟩
    · exact ⟨reg.cache.plans, rfl⟩
  have hupdate := execute_updateCache hreg₁ (fun c => c.insertPlan key p) hplans hlayers
    (by rw [hinsert]; exact hplans) (by rw [hinsert]; exact hlayers)
  refine ⟨p, w₁.withCache r (reg.cache.insertPlan key p), ?_,
    ⟨World.registryAt?_withCache hreg₁ _, hdefinitions, hkept, hbuilders⟩,
    Option.map_eq_some_iff.mpr ⟨stored, hstored, rfl⟩⟩
  rw [storeCompiled, execute_bind_ok (execute_debug _ w), execute_bind_ok hnew,
    execute_bind_ok hupdate]
  rfl

/-- **What a compilation comes to.** It changes nothing but the cache of its registry. In a coherent
registry with a sound cache the outcome is right, and the cache sound afterwards. A cache that held
nothing then has something under the name of every level that has static layers. -/
structure Compiled (r : RegistryId) (reg : Registry) (f : DefinitionId) (key : PlanKey)
    (w : World) (outcome : Except Failure PlanId) (c : PlanCache) (w' : World) : Prop where
  recached : World.Recached r reg c w w'
  after : CacheAfter reg c
  present : reg.cache.enabled = true → c.generation = reg.generation
  sound : w.Coherent reg → (reg.cache.generation = reg.generation → reg.cache.Sound w reg) →
    c.generation = reg.generation → c.Sound w' reg
  outcome : w.Coherent reg → (reg.cache.generation = reg.generation → reg.cache.Sound w reg) →
    Outcome w reg f key c w' outcome
  fills : reg.cache.enabled = true → reg.Fresh → ∀ m ∈ w.definitions.levels f,
    ∀ layers, w.HasStatic reg m layers → (c.shared.get? (w.definitions.nameOf m)).isSome

/-- From an empty cache the levels of a factory leave something under their names. -/
theorem fills_of_cached {f m : DefinitionId} {layers : List Layer}
    (henabled : reg.cache.enabled = true) (hempty : reg.cache.shared = ∅)
    (hm : m ∈ w.definitions.levels f) (hstatic : w.HasStatic reg m layers) :
    ((w.cachedStaticLayers (.own reg.globals) (w.definitions.foundation (w.definitions.lineage f))
      (w.definitions.levels f) reg.cache).2.shared.get? (w.definitions.nameOf m)).isSome := by
  obtain ⟨levels, ha, hs⟩ := hstatic
  -- The factory comes upon a level with an ancestry, so it has one that contains the level.
  obtain ⟨d, all, hd, hall⟩ := Definitions.ancestry_of_mem hm ha
  obtain rfl := Value.definition.inj hd
  have hlineage := Definitions.lineage_eq_iff.mpr hall
  have hfoundation : w.definitions.foundation (w.definitions.lineage f) = .ok [] := by
    rw [Definitions.foundation, hlineage]
    rfl
  rw [Definitions.levels_of_ancestry hall] at hm ⊢
  obtain ⟨nearer, older, rfl⟩ := List.mem_iff_append.mp hm
  obtain rfl := ha.unique (hall.suffix rfl)
  rw [hfoundation]
  exact World.cached_fills henabled hempty (World.levelLayers_of_staticLayers hs)

/-- **What compiling anew comes to**: in a coherent registry to what the rule gives, and all that it
shares is right. An empty cache is filled for every level. -/
structure Anew (r : RegistryId) (reg : Registry) (f : DefinitionId) (dynamic : List String)
    (w : World) (outcome : Except Failure StoredPlan) (c : PlanCache) (w' : World) : Prop where
  recached : World.Recached r reg c w w'
  renews : PlanCache.Renews reg.cache c
  right : w.Coherent reg → (reg.cache.enabled = true → reg.cache.SharedSound w reg) →
    (reg.cache.SharedSound w reg → c.SharedSound w reg) ∧
      outcome.map (·.plan) = w.compile (.own reg.globals) f dynamic
  fills : reg.cache.enabled = true → reg.cache.shared = ∅ → ∀ m ∈ w.definitions.levels f,
    ∀ layers, w.HasStatic reg m layers → (c.shared.get? (w.definitions.nameOf m)).isSome

theorem compileAnew_spec (hn : w.Neat r reg) {f : DefinitionId} {name : String}
    (hf : reg.factory? name = some f) (dynamic : List String) :
    ∃ outcome c w', (compileAnew r (.own reg.globals) f dynamic).execute w = (outcome, w') ∧
      Anew r reg f dynamic w outcome c w' := by
  rcases hcached : w.cachedStaticLayers (.own reg.globals)
    (w.definitions.foundation (w.definitions.lineage f)) (w.definitions.levels f) reg.cache
    with ⟨inherited, c₁⟩
  obtain ⟨outcome, c, w', hexec, hplan, hrenews, hshared, hrecached⟩ :=
    execute_compileAnew hn.registry hn.plain.handedPlans hn.plain.handedLayers dynamic hcached
  refine ⟨outcome, c, w', hexec, hrecached, hrenews, fun hco hs => ?_,
    fun henabled hempty m hm layers hstatic => ?_⟩
  · -- In a coherent registry what the cache gave is what the levels come to.
    obtain ⟨c', hc', hshares⟩ := hco.cachedStaticLayers_eq hf List.suffix_rfl hs
    rw [hcached] at hc'
    obtain ⟨rfl, rfl⟩ := Prod.mk.inj hc'
    refine ⟨fun hsound => ?_, hplan⟩
    unfold PlanCache.SharedSound
    rw [hshared]
    exact hshares.sound hsound
  · have hsome := fills_of_cached henabled hempty hm hstatic
    rw [hcached] at hsome
    rwa [hshared]

/-- What storing a plan changes in a cache. -/
theorem insertPlan_fields (c : PlanCache) (key : PlanKey) (p : PlanId) :
    (c.insertPlan key p).generation = c.generation ∧ (c.insertPlan key p).enabled = c.enabled ∧
      (c.insertPlan key p).shared = c.shared := by
  unfold PlanCache.insertPlan
  split <;> exact ⟨rfl, rfl, rfl⟩

/-- **A plan that is not in the cache** is compiled, stored and kept; a failure is passed on. -/
theorem compileMissing_spec (hn : w.Neat r reg) {f : DefinitionId} {key : PlanKey}
    (hf : reg.factory? key.1 = some f) (hnone : reg.cache.plan? key = none)
    (hin : reg.cache.enabled = true → reg.cache.generation = reg.generation) :
    ∃ outcome c w', (compileMissing r (.own reg.globals) f key).execute w = (outcome, w') ∧
      Compiled r reg f key w outcome c w' := by
  obtain ⟨outcome, c₂, w₁, hexec, hanew⟩ := compileAnew_spec hn hf key.2
  have hafter := cacheAfter_renews hanew.renews
  have hrecached := hanew.recached
  obtain ⟨hgen, hplans⟩ : c₂.generation = reg.cache.generation ∧ c₂.plans = reg.cache.plans := by
    obtain ⟨shared, placed, rfl⟩ := hanew.renews.kept
    exact ⟨rfl, rfl⟩
  have hfills : reg.cache.enabled = true → reg.Fresh → ∀ m ∈ w.definitions.levels f,
      ∀ layers, w.HasStatic reg m layers →
        (c₂.shared.get? (w.definitions.nameOf m)).isSome := fun henabled hfresh =>
    hanew.fills henabled (hfresh (hin henabled)).1
  have hright : w.Coherent reg → (reg.cache.generation = reg.generation → reg.cache.Sound w reg) →
      (c₂.generation = reg.generation → c₂.Sound w reg) ∧
        outcome.map (·.plan) = w.compile (.own reg.globals) f key.2 := by
    intro hco hs
    obtain ⟨hshared, hplan⟩ := hanew.right hco fun h => (hs (hin h)).shared
    refine ⟨fun h => ?_, hplan⟩
    have hsound := hs (hgen ▸ h)
    exact ⟨hshared hsound.shared, hplans ▸ hsound.plans⟩
  have hw₁ : w₁.definitions.Plain := hrecached.definitions ▸ hn.definitions
  -- A failure stores nothing; a plan is stored, and found under its key.
  rcases outcome with e | stored
  · refine ⟨.error e, c₂, w₁, ?_, hrecached, hafter, fun h => hgen.trans (hin h),
      fun hco hs h => ?_, fun hco hs => (hright hco hs).2.symm, hfills⟩
    · rw [compileMissing, execute_bind_error hexec]
    · exact World.Sound.extend hn.definitions hw₁ hrecached.extends (.refl reg)
        ((hright hco hs).1 h)
  · obtain ⟨p, w', hstore, hstored, hp⟩ := execute_storeCompiled hrecached.registry
      (hafter.plain hn.plain).handedPlans (hafter.plain hn.plain).handedLayers key stored
    have hnone₂ : c₂.plan? key = none := by
      rw [PlanCache.plan?] at hnone ⊢
      rwa [hafter.enabled, hplans]
    have hrecached' := hrecached.trans hstored
    obtain ⟨hgen', henabled', hshared'⟩ := insertPlan_fields c₂ key p
    refine ⟨.ok p, _, w', ?_, hrecached', hafter.insertPlan hnone₂ p,
      fun h => hgen'.trans (hgen.trans (hin h)), fun hco hs h => ?_, fun hco hs => ?_, ?_⟩
    · rw [compileMissing, execute_bind_ok hexec, hstore]
    · have hw' : w'.definitions.Plain := hrecached'.definitions ▸ hn.definitions
      have hsound := World.Sound.extend hn.definitions hw' hrecached'.extends (.refl reg)
        ((hright hco hs).1 (hgen' ▸ h))
      refine hsound.insertPlan hnone₂ hf ?_ hp
      rw [World.compile_congr hn.definitions hrecached'.definitions]
      exact (hright hco hs).2.symm
    · refine ⟨stored.plan, (hright hco hs).2.symm, hp, fun h => ?_⟩
      have henabled₂ : c₂.enabled = true := henabled' ▸ h
      refine ⟨hgen'.trans (hgen.trans (hin (hafter.enabled ▸ henabled₂))), ?_⟩
      rw [PlanCache.plan?, if_pos henabled₂] at hnone₂
      rw [PlanCache.lookup_insertPlan henabled₂ hnone₂, if_pos rfl]
    · rwa [hshared']

/-- **A plan that is in the cache** is handed out as it is. -/
theorem compiled_hit (hn : w.Neat r reg) {f : DefinitionId} {key : PlanKey} {p : PlanId}
    (hf : reg.factory? key.1 = some f) (hfound : reg.cache.plan? key = some p)
    (hin : reg.cache.enabled = true → reg.cache.generation = reg.generation) (message : String) :
    Compiled r reg f key w (.ok p) reg.cache (logged w message) := by
  have hrecached := (undisturbed_logged w message).recached hn.registry
  unfold PlanCache.plan? at hfound
  split at hfound
  · rename_i henabled
    -- A cache that has the plan is one that counts, and nothing in it is changed.
    refine ⟨hrecached, .refl reg, hin, fun hco hs h => ?_, fun hco hs => ?_, fun _ hfresh => ?_⟩
    · exact World.Sound.extend hn.definitions (hrecached.definitions ▸ hn.definitions)
        hrecached.extends (.refl reg) (hs h)
    · obtain ⟨f', plan, hf', hplan, hp⟩ := (hs (hin henabled)).plans _ p hfound
      obtain rfl := Option.some.inj (hf.symm.trans hf')
      exact ⟨plan, hplan, hp, fun _ => ⟨hin henabled, hfound⟩⟩
    · rw [(hfresh (hin henabled)).2] at hfound
      cases hfound
  · cases hfound

/-- **What a compilation comes to is the same before a change** that keeps all that counts in the
cache: what it comes to afterwards. -/
theorem Compiled.of_recached (hn : w.Neat r reg) {w₀ : World} {c₀ : PlanCache}
    (h₀ : World.Recached r reg c₀ w w₀) (hafter : CacheAfter reg c₀)
    (hsound : (reg.cache.generation = reg.generation → reg.cache.Sound w reg) →
      c₀.generation = reg.generation → c₀.Sound w reg)
    (hfresh : reg.Fresh → Registry.Fresh { reg with cache := c₀ })
    {f : DefinitionId} {key : PlanKey} {outcome : Except Failure PlanId} {c : PlanCache}
    (h : Compiled r { reg with cache := c₀ } f key w₀ outcome c w') :
    Compiled r reg f key w outcome c w' := by
  -- Coherence, soundness and the rule are carried over to the world after the change, and what
  -- the compilation says there is carried back.
  have htables := World.sameTables_cache reg c₀
  have hplain₀ : w₀.definitions.Plain := h₀.definitions ▸ hn.definitions
  have hplain : w'.definitions.Plain := h.recached.definitions ▸ hplain₀
  have hco : w.Coherent reg → w₀.Coherent { reg with cache := c₀ } := fun hco =>
    hco.congr hn.definitions h₀.definitions htables
  have hs : (reg.cache.generation = reg.generation → reg.cache.Sound w reg) →
      c₀.generation = reg.generation → c₀.Sound w₀ { reg with cache := c₀ } := fun hs hgen =>
    World.Sound.extend hn.definitions hplain₀ h₀.extends htables (hsound hs hgen)
  refine ⟨h₀.trans h.recached, hafter.trans h.after,
    fun henabled => h.present (hafter.enabled.trans henabled), fun hco' hs' hgen => ?_,
    fun hco' hs' => ?_, fun henabled hfresh' m hm layers hstatic => ?_⟩
  · exact World.Sound.extend hplain hplain (.refl w') htables.symm
      (h.sound (hco hco') (hs hs') hgen)
  · have houtcome := h.outcome (hco hco') (hs hs')
    have hcompile : w₀.compile (.own reg.globals) f key.2 = w.compile (.own reg.globals) f key.2 :=
      World.compile_congr hn.definitions h₀.definitions
    cases outcome with
    | error e => exact hcompile.symm.trans houtcome
    | ok p =>
      obtain ⟨plan, hplan, hp⟩ := houtcome
      exact ⟨plan, hcompile.symm.trans hplan, hp⟩
  · have hsome := h.fills (hafter.enabled.trans henabled) (hfresh hfresh') m
      (by rwa [h₀.definitions]) layers (hstatic.extend hn.definitions hplain₀ h₀.extends htables)
    rwa [h₀.definitions] at hsome

/-- A cache in which nothing counts is empty once it has been refreshed. -/
theorem fresh_refresh (hfresh : reg.Fresh) :
    Registry.Fresh { reg with cache := reg.cache.refresh reg.generation } := by
  unfold Registry.Fresh PlanCache.refresh
  split
  · exact fun _ => ⟨rfl, rfl⟩
  · exact hfresh

/-- The compiler refreshes the cache before it looks into it. -/
theorem execute_compileNamed (hn : w.Neat r reg) {f : DefinitionId}
    (hf : reg.factory? (w.definitions.nameOf f) = some f) (dynamic : List String) :
    (compileNamed r f dynamic).execute w =
      (match (reg.cache.refresh reg.generation).plan? (w.definitions.nameOf f, dynamic) with
        | some p => do
          debug resolverLogger (s!"Plan cache hit for {w.definitions.nameOf f} with traits "
            ++ traitsText dynamic)
          return p
        | none => compileMissing r (.own reg.globals) f
            (w.definitions.nameOf f, dynamic)).execute
        (w.withCache r (reg.cache.refresh reg.generation)) := by
  have hafter := cacheAfter_refresh reg
  have hreg := World.registryAt?_withCache hn.registry (reg.cache.refresh reg.generation)
  have hupdate : (updateCache r fun c => c.refresh reg.generation).execute w =
      (.ok ⟨⟩, w.withCache r (reg.cache.refresh reg.generation)) :=
    execute_updateCache hn.registry (fun c => c.refresh reg.generation)
      hn.plain.handedPlans hn.plain.handedLayers (hafter.handedPlans.trans hn.plain.handedPlans)
      (hafter.handedLayers.trans hn.plain.handedLayers)
  obtain ⟨definition, hd, _⟩ := hn.names _ f hf
  have hkey := execute_requireCacheKey (w := w.withCache r (reg.cache.refresh reg.generation))
    hn.definitions hd (reg.cache.refresh reg.generation)
  rw [compileNamed, execute_bind_ok (execute_get w),
    execute_bind_ok (execute_getRegistry hn.registry), execute_bind_ok hupdate,
    execute_bind_ok (execute_getRegistry hreg)]
  dsimp only
  rw [execute_bind_ok hkey, hn.plain.traits_eq]
  rfl

/-- **The compiler gives what the rule gives** for a registered factory, be it a plan or a failure,
whether the cache is on or off; and the cache that it leaves is sound. -/
theorem compileNamed_spec (hn : w.Neat r reg) {f : DefinitionId}
    (hf : reg.factory? (w.definitions.nameOf f) = some f) (dynamic : List String) :
    ∃ outcome c w', (compileNamed r f dynamic).execute w = (outcome, w') ∧
      Compiled r reg f (w.definitions.nameOf f, dynamic) w outcome c w' := by
  have hafter := cacheAfter_refresh reg
  have hrecached := World.recached_withCache hn.registry (reg.cache.refresh reg.generation)
  have hn₀ := hafter.neat hn hrecached
  have hin : (reg.cache.refresh reg.generation).enabled = true →
      (reg.cache.refresh reg.generation).generation = reg.generation := fun h =>
    generation_refresh (hafter.enabled ▸ h) _
  have hf₀ : Registry.factory? { reg with cache := reg.cache.refresh reg.generation }
      (w.definitions.nameOf f, dynamic).1 = some f := hf
  rw [execute_compileNamed hn hf dynamic]
  -- The plan is there, or is compiled; either way the refreshed cache is where it starts from.
  rcases hfound : (reg.cache.refresh reg.generation).plan? (w.definitions.nameOf f, dynamic)
    with _ | p
  · obtain ⟨outcome, c, w', hexec, h⟩ := compileMissing_spec hn₀ hf₀ hfound hin
    exact ⟨outcome, c, w', hexec, h.of_recached hn hrecached hafter sound_refresh fresh_refresh⟩
  · have h := compiled_hit hn₀ hf₀ hfound hin
      (s!"Plan cache hit for {w.definitions.nameOf f} with traits " ++ traitsText dynamic)
    exact ⟨.ok p, _, _, rfl, h.of_recached hn hrecached hafter sound_refresh fresh_refresh⟩

/-! ## 5. A call of the compiler -/

/-- What disturbs nothing makes no difference to what a compilation comes to after it. -/
theorem Compiled.before (hn : w.Neat r reg) {w₁ : World} (hu : w.Undisturbed w₁) {f : DefinitionId}
    {key : PlanKey} {outcome : Except Failure PlanId} {c : PlanCache}
    (h : Compiled r reg f key w₁ outcome c w') : Compiled r reg f key w outcome c w' :=
  Compiled.of_recached hn (hu.recached hn.registry) (.refl reg) id id h

/-- **What a call of the compiler asks for**: the factory that is registered under the name given,
and the names that the elements of the traits given stand for. -/
structure Asks (w : World) (reg : Registry) (factory : Value) (traits : Option Value)
    (f : DefinitionId) (dynamic : List String) : Prop where
  factory : ∃ name, factory.name? = some name ∧ reg.factory? name = some f
  traits : ∃ vs w', (elementsOf traits).execute w = (.ok vs, w') ∧
    List.Forall₂ (fun v name => v.name? = some name) vs dynamic

theorem execute_nameOr {cause : String → Cause} {ref : Value} {name : String} {w' : World}
    (h : (nameOr cause ref).execute w = (.ok name, w')) : ref.name? = some name ∧ w' = w := by
  unfold nameOr at h
  split at h
  · cases h
    exact ⟨‹_›, rfl⟩
  · obtain ⟨_, _, _, h⟩ := ok_of_execute_bind h
    cases h

theorem names_of_execute {cause : String → Cause} {vs : List Value} {names : List String}
    (h : (vs.mapM (nameOr cause)).execute w = (.ok names, w')) :
    List.Forall₂ (fun v name => v.name? = some name) vs names := by
  induction vs generalizing names w with
  | nil =>
    cases h
    exact .nil
  | cons v vs ih =>
    rw [List.mapM_cons] at h
    obtain ⟨name, w₁, hname, h⟩ := ok_of_execute_bind h
    obtain ⟨rest, w₂, hrest, h⟩ := ok_of_execute_bind h
    cases h
    exact .cons (execute_nameOr hname).1 (ih hrest)

theorem asks_of_named {factory : Value} {traits : Option Value} {f : DefinitionId}
    {dynamic : List String} (h : (named reg factory traits).execute w = (.ok (f, dynamic), w')) :
    Asks w reg factory traits f dynamic := by
  obtain ⟨name, w₁, hread, hfound⟩ := ok_of_execute_bind h
  obtain ⟨hname, rfl⟩ := execute_nameOr hread
  rcases hf : reg.factory? name with _ | f' <;> rw [hf] at hfound
  · cases hfound
  · obtain ⟨vs, w₂, hvs, hrest⟩ := ok_of_execute_bind hfound
    obtain ⟨names, w₃, hnames, hpair⟩ := ok_of_execute_bind hrest
    cases hpair
    exact ⟨⟨name, hname, hf⟩, vs, w₂, hvs, names_of_execute hnames⟩

theorem execute_names {cause : String → Cause} {vs : List Value} {names : List String}
    (h : List.Forall₂ (fun v name => v.name? = some name) vs names) (w : World) :
    (vs.mapM (nameOr cause)).execute w = (.ok names, w) := by
  -- Names are read off the references alone.
  induction h with
  | nil => rfl
  | cons hname _ ih =>
    rw [List.mapM_cons, nameOr, hname]
    dsimp only
    rw [execute_bind_ok (execute_pure _ w), execute_bind_ok ih]
    rfl

theorem named_of_asks {factory : Value} {traits : Option Value} {f : DefinitionId}
    {dynamic : List String} (h : Asks w reg factory traits f dynamic) :
    ∃ w', (named reg factory traits).execute w = (.ok (f, dynamic), w') := by
  obtain ⟨⟨name, hname, hf⟩, vs, w₁, hvs, hnames⟩ := h
  have hread : (factoryName factory).execute w = (.ok name, w) := by
    rw [factoryName, nameOr, hname]
    rfl
  refine ⟨w₁, ?_⟩
  rw [named, execute_bind_ok hread, hf]
  dsimp only
  rw [execute_bind_ok hvs, traitName, execute_bind_ok (execute_names hnames w₁)]
  rfl

/-- A registered factory can be compiled by its name alone. -/
theorem named_text {name : String} {f : DefinitionId} (hf : reg.factory? name = some f) :
    (named reg (.text name) none).execute w = (.ok (f, []), w) := by
  have hread : (factoryName (.text name)).execute w = (.ok name, w) := rfl
  rw [named, execute_bind_ok hread, hf]
  rfl

theorem Asks.registered (hn : w.Neat r reg) {factory : Value} {traits : Option Value}
    {f : DefinitionId} {dynamic : List String} (h : Asks w reg factory traits f dynamic) :
    reg.factory? (w.definitions.nameOf f) = some f := by
  obtain ⟨name, _, hf⟩ := h.factory
  rw [hn.names.nameOf hf, hf]

/-- **A call of the compiler** fails while it reads its arguments, and then disturbs nothing, or
comes to what a compilation does. -/
theorem compile_spec (hn : w.Neat r reg) (factory : Value) (traits : Option Value) :
    (∃ e w', (named reg factory traits).execute w = (.error e, w') ∧
      (compile r factory traits).execute w = (.error e, w') ∧ w.Undisturbed w') ∨
    ∃ f dynamic w₁ outcome c w', (named reg factory traits).execute w = (.ok (f, dynamic), w₁) ∧
      (compile r factory traits).execute w = (outcome, w') ∧
      Compiled r reg f (w.definitions.nameOf f, dynamic) w outcome c w' := by
  rw [execute_compile hn.registry hn.plain]
  have hu := (apart_named reg factory traits).keeps w
  rcases hnamed : (named reg factory traits).execute w with ⟨e | ⟨f, dynamic⟩, w₁⟩ <;>
    rw [hnamed] at hu
  · exact .inl ⟨e, w₁, rfl, execute_bind_error hnamed, hu⟩
  -- Reading the arguments has disturbed nothing, so the compilation may be said of the world
  -- before it.
  · have hn₁ := hn.undisturbed hu
    have hf := (asks_of_named hnamed).registered hn
    rw [← hu.definitions] at hf
    obtain ⟨outcome, c, w', hexec, h⟩ := compileNamed_spec hn₁ hf dynamic
    rw [hu.definitions] at h
    exact .inr ⟨f, dynamic, w₁, outcome, c, w', rfl, (execute_bind_ok hnamed).trans hexec,
      h.before hn hu⟩

end Action

end TraitFactory
