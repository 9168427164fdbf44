import TraitFactory.Proofs.Compiling
import TraitFactory.Proofs.UniformDeclaring

/-!
# What is compiled alike

What a cache has for another generation is dropped before anything is looked up in it. So whatever
else it holds, a plan is found there, or compiled anew, in the same way in alike worlds.
-/

namespace TraitFactory

/-! ## 1. Caches -/

namespace PlanCache

variable {c : PlanCache}

/-- The generation that a cache is of has no say in what is shared. -/
theorem keepShared_of (c : PlanCache) (generation : Int) (name : String) (layers : List Layer) :
    { c with generation := generation }.keepShared name layers =
      ((c.keepShared name layers).1,
        { (c.keepShared name layers).2 with generation := generation }) := by
  unfold keepShared
  dsimp only
  split
  · split <;> rfl
  · rfl

end PlanCache

namespace World

variable (w : World) (global : Slot (Table DefinitionId)) (above : Except Failure (List Layer))
  (levels : List DefinitionId)

theorem cachedStaticLayers_of (c : PlanCache) (generation : Int) :
    w.cachedStaticLayers global above levels { c with generation := generation } =
      ((w.cachedStaticLayers global above levels c).1,
        { (w.cachedStaticLayers global above levels c).2 with generation := generation }) := by
  induction levels with
  | nil => rfl
  | cons level older ih =>
    have hshared : { c with generation := generation }.shared? (w.definitions.nameOf level) =
        c.shared? (w.definitions.nameOf level) := rfl
    unfold cachedStaticLayers
    rw [hshared]
    rcases c.shared? (w.definitions.nameOf level) with _ | layers
    · dsimp only
      rw [ih]
      rcases w.cachedStaticLayers global above older c with ⟨e | inherited, c₁⟩
      · rfl
      · dsimp only
        rcases w.levelLayers global level with e | own
        · rfl
        · dsimp only
          rw [PlanCache.keepShared_of]
    · rfl

/-- A cache that is off has no say at all. -/
theorem cachedStaticLayers_of_off {c : PlanCache} (h : c.enabled = false) :
    w.cachedStaticLayers global above levels c = (w.staticLayers global above levels, c) := by
  induction levels with
  | nil => rfl
  | cons level older ih =>
    have hshared : ∀ name, c.shared? name = none := fun _ => by simp [PlanCache.shared?, h]
    have hkeep : ∀ name layers, c.keepShared name layers = (layers, c) := fun _ _ => by
      simp [PlanCache.keepShared, h]
    unfold cachedStaticLayers staticLayers
    rw [hshared, ih]
    rcases w.staticLayers global above older with e | inherited
    · rfl
    · dsimp only
      rcases w.levelLayers global level with e | own
      · rfl
      · dsimp only
        rw [hkeep]
        rfl

end World

namespace Registry

variable [Scrutiny] {reg reg' : Registry}

/-- **A registry whose cache counts**, if it is on: it is of the present generation. -/
def Current (reg : Registry) : Prop :=
  reg.cache.enabled = true → reg.cache.generation = reg.generation

/-- The caches of registries that are alike hold the same, if they count. -/
theorem Like.cache_eq (h : reg.Like reg') (hnow : reg.Current) (hnow' : reg'.Current)
    (hon : reg.cache.enabled = true) :
    reg'.cache = { reg.cache with generation := reg'.generation } := by
  have hgeneration := hnow' (h.enabled.trans hon)
  have hsame : { reg'.cache with generation := 0 } = { reg.cache with generation := 0 } := by
    rw [← PlanCache.presented_now, ← PlanCache.presented_now, hnow hon, hgeneration, h.cache]
  calc reg'.cache
    _ = { { reg'.cache with generation := 0 } with generation := reg'.generation } := by
      rw [← hgeneration]
    _ = { reg.cache with generation := reg'.generation } := by rw [hsame]

omit [Scrutiny] in
theorem Secluded.refreshed (h : reg.Secluded) :
    { reg with cache := reg.cache.refresh reg.generation }.Secluded := by
  unfold PlanCache.refresh
  split
  · exact { h with past := Int.le_refl _ }
  · exact h

omit [Scrutiny] in
theorem current_refreshed (reg : Registry) :
    { reg with cache := reg.cache.refresh reg.generation }.Current := by
  have hsame : (reg.cache.refresh reg.generation).enabled = reg.cache.enabled := by
    unfold PlanCache.refresh
    split <;> rfl
  exact fun h => Action.generation_refresh (hsame.symm.trans h) reg.generation

theorem Like.refreshed (h : reg.Like reg') :
    { reg with cache := reg.cache.refresh reg.generation }.Like
      { reg' with cache := reg'.cache.refresh reg'.generation } := by
  refine h.withCache ?_ h.left.refreshed h.right.refreshed fun hreg => by rw [hreg]
  rw [PlanCache.presented_refresh, PlanCache.presented_refresh, h.cache]

/-- Caches that count go on holding the same when the same is put into them. -/
theorem Like.renewed (h : reg.Like reg') (hnow : reg.Current) (hnow' : reg'.Current)
    (hon : reg.cache.enabled = true) (plans : List (PlanKey × PlanId)) (shared : Table (List Layer))
    (placed : Table (List ObjectId)) :
    { reg with cache := { reg.cache with plans := plans, shared := shared, placed := placed } }.Like
      { reg' with
        cache := { reg'.cache with plans := plans, shared := shared, placed := placed } } := by
  refine h.withCache ?_ { h.left with } { h.right with } fun hreg => by rw [hreg]
  have hcache := h.cache_eq hnow hnow' hon
  rw [PlanCache.presented, PlanCache.presented, if_pos (hnow hon),
    if_pos (hnow' (h.enabled.trans hon)), hcache]

end Registry

namespace Action

variable [Scrutiny] {w w' : World} {r : RegistryId} {reg reg' : Registry}

theorem Alike.withCache (hw : w.Alike w') (hreg : w.registryAt? r = some reg)
    (hreg' : w'.registryAt? r = some reg') {c c' : PlanCache}
    (h : { reg with cache := c }.Like { reg' with cache := c' }) :
    (w.withCache r c).Alike (w'.withCache r c') :=
  hw.modifyRegistry r fun q q' hq hq' _ => by
    cases hreg.symm.trans hq
    cases hreg'.symm.trans hq'
    exact h

omit [Scrutiny] in
/-- The cache of a registry that keeps it to itself is just replaced. -/
theorem execute_updateCache_of (h : reg.Secluded) (hreg : w.registryAt? r = some reg)
    {f : PlanCache → PlanCache} (hf : { reg with cache := f reg.cache }.Secluded) :
    (updateCache r f).execute w = (.ok ⟨⟩, w.withCache r (f reg.cache)) :=
  execute_updateCache hreg f h.handedPlans h.handedLayers hf.handedPlans hf.handedLayers

/-! ## 2. Compiling anew -/

omit [Scrutiny] in
theorem placeStatic_of (ds : Definitions) (levels : List DefinitionId) (c : PlanCache)
    (generation : Int) : placeStatic ds levels { c with generation := generation } =
      (fun x => (x.1, { x.2 with generation := generation })) <$> placeStatic ds levels c := by
  induction levels with
  | nil => rfl
  | cons level older ih =>
    rcases hplaced : c.placed.get? (ds.nameOf level) with _ | objects
    · simp only [placeStatic, hplaced, ih, bind_map_left, map_bind]
      congr 1
      funext x
      obtain ⟨above, c₁⟩ := x
      dsimp only
      rcases c₁.placed.get? (ds.nameOf level) with _ | objects
      · rcases c₁.shared.get? (ds.nameOf level) with _ | layers
        · rfl
        · dsimp only
          rw [map_bind]
          rfl
      · rfl
    · simp only [placeStatic, hplaced]
      rfl

theorem uniform_placeStatic (ds : Definitions) (levels : List DefinitionId) (c : PlanCache) :
    Uniform (placeStatic ds levels c) := by
  induction levels with
  | nil => exact uniform_pure _
  | cons level older ih =>
    unfold placeStatic
    dsimp only
    split
    · exact uniform_pure _
    · refine uniform_bind ih fun x => ?_
      obtain ⟨above, c₁⟩ := x
      dsimp only
      split
      · exact uniform_pure _
      · exact uniform_bind (uniform_mapM _ fun _ => uniform_place _) fun _ => uniform_pure _
      · exact uniform_pure _

/-- The plan on some static layers, with objects for the layers of its own. -/
theorem uniform_layered (kept : List ObjectId) (x : Except Failure Plan) : Uniform (do
    let plan ← liftExcept x
    let added ← (plan.layers.drop kept.length).mapM fun l => place (.layer l)
    return (⟨plan, kept ++ added⟩ : StoredPlan)) :=
  uniform_bind (uniform_liftExcept x) fun _ =>
    uniform_bind (uniform_mapM _ fun _ => uniform_place _) fun _ => uniform_pure _

/-- **What is not in the cache is compiled alike.** -/
theorem agree_compileAnew (hw : w.Alike w') (hreg : w.registryAt? r = some reg)
    (hreg' : w'.registryAt? r = some reg') (h : reg.Like reg') (hnow : reg.Current)
    (hnow' : reg'.Current) (global : Slot (Table DefinitionId)) (f : DefinitionId)
    (dynamic : List String) :
    Agree (fun _ => True) ((compileAnew r global f dynamic).execute w)
      ((compileAnew r global f dynamic).execute w') := by
  have hdefinitions : w'.definitions = w.definitions := by rw [hw.rest]; rfl
  have hplan : w'.planOn global = w.planOn global := by
    rw [hw.rest, World.planOn_withMargin]
  have hlayers : ∀ above, w'.cachedStaticLayers global above =
      w.cachedStaticLayers global above := fun above => by
    rw [hw.rest, World.cachedStaticLayers_withMargin]
  unfold compileAnew
  rw [execute_bind_ok (execute_get w), execute_bind_ok (execute_get w')]
  dsimp only
  rw [execute_bind_ok (execute_getRegistry hreg), execute_bind_ok (execute_getRegistry hreg'),
    hdefinitions, hplan, hlayers]
  generalize w.definitions.foundation (w.definitions.lineage f) = above
  generalize (w.definitions.lineage f).levels = levels
  by_cases hon : reg.cache.enabled = true
  · have hrenews := w.cachedStaticLayers_renews global above levels reg.cache
    rw [h.cache_eq hnow hnow' hon,
      World.cachedStaticLayers_of w global above levels reg.cache reg'.generation]
    generalize w.cachedStaticLayers global above levels reg.cache = s at hrenews
    obtain ⟨inherited, c₁⟩ := s
    have hon₁ : c₁.enabled = true := hrenews.enabled.trans hon
    dsimp only at hrenews ⊢
    rw [if_pos hon₁, if_pos hon₁, placeStatic_of _ _ c₁ reg'.generation, bind_map_left]
    refine agree_bind (uniform_placeStatic _ _ _ w w' hw) fun x w₁ w₁' _ hexec hexec' h₁ => ?_
    -- Only which objects the layers are has changed, in both caches alike.
    obtain ⟨kept, placed, w₂, hplaced, hu⟩ := placeStatic_spec w.definitions levels c₁ w
    obtain ⟨kept', placed', w₂', hplaced', hu'⟩ := placeStatic_spec w.definitions levels c₁ w'
    cases hexec.symm.trans hplaced
    cases hexec'.symm.trans hplaced'
    have hreg₁ := (hu.registryAt? r).trans hreg
    have hreg₁' := (hu'.registryAt? r).trans hreg'
    obtain ⟨shared, placed₁, rfl⟩ := hrenews.kept
    have hlike := h.renewed hnow hnow' hon reg.cache.plans shared placed
    rw [h.cache_eq hnow hnow' hon] at hlike
    rw [execute_bind_ok (execute_updateCache_of h.left hreg₁ hlike.left),
      execute_bind_ok (execute_updateCache_of h.right hreg₁' hlike.right)]
    exact uniform_layered _ _ _ _ (Alike.withCache h₁ hreg₁ hreg₁' hlike)
  · have hoff : reg.cache.enabled = false := Bool.eq_false_iff.mpr hon
    have hoff' : reg'.cache.enabled = false := h.enabled.trans hoff
    rw [World.cachedStaticLayers_of_off _ _ _ _ hoff,
      World.cachedStaticLayers_of_off _ _ _ _ hoff']
    dsimp only
    rw [hoff, hoff']
    rw [if_neg Bool.false_ne_true, if_neg Bool.false_ne_true, pure_bind, pure_bind,
      execute_bind_ok (execute_updateCache_of h.left hreg h.left),
      execute_bind_ok (execute_updateCache_of h.right hreg' h.right)]
    exact uniform_layered _ _ _ _ (Alike.withCache hw hreg hreg' h)

/-- A plan is stored, and kept in the cache, alike. -/
theorem agree_storeCompiled (hw : w.Alike w') (hreg : w.registryAt? r = some reg)
    (hreg' : w'.registryAt? r = some reg') (h : reg.Like reg') (hnow : reg.Current)
    (hnow' : reg'.Current) (key : PlanKey) (stored : StoredPlan) :
    Agree (fun _ => True) ((storeCompiled r key stored).execute w)
      ((storeCompiled r key stored).execute w') := by
  have hinsert : ∀ p, { reg with cache := reg.cache.insertPlan key p }.Like
      { reg' with cache := reg'.cache.insertPlan key p } := by
    intro p
    by_cases hon : reg.cache.enabled = true
    · have hon' : reg'.cache.enabled = true := h.enabled.trans hon
      rw [PlanCache.insertPlan, PlanCache.insertPlan, if_pos hon, if_pos hon']
      have hplans : reg'.cache.plans = reg.cache.plans := by rw [h.cache_eq hnow hnow' hon]
      have hsame : reg'.cache.shared = reg.cache.shared := by rw [h.cache_eq hnow hnow' hon]
      have hplaced : reg'.cache.placed = reg.cache.placed := by rw [h.cache_eq hnow hnow' hon]
      rw [hplans, hsame, hplaced]
      exact h.renewed hnow hnow' hon (reg.cache.plans ++ [(key, p)]) reg.cache.shared
        reg.cache.placed
    · have hon' : ¬reg'.cache.enabled = true := by rwa [h.enabled]
      rwa [PlanCache.insertPlan, PlanCache.insertPlan, if_neg hon, if_neg hon']
  refine agree_bind (uniform_log _ _ _ w w' hw) fun _ w₁ w₁' _ hlog hlog' h₁ => ?_
  refine agree_bind (uniform_newPlan stored w₁ w₁' h₁) fun p w₂ w₂' _ hnew hnew' h₂ => ?_
  -- Neither an entry of the log nor a plan has changed the registries.
  have hreg₂ : w₂.registryAt? r = some reg := by
    cases hlog
    cases hnew
    exact hreg
  have hreg₂' : w₂'.registryAt? r = some reg' := by
    cases hlog'
    cases hnew'
    exact hreg'
  have hkept := execute_updateCache_of (f := (·.insertPlan key p)) h.left hreg₂ (hinsert p).left
  have hkept' := execute_updateCache_of (f := (·.insertPlan key p)) h.right hreg₂' (hinsert p).right
  rw [execute_bind_ok hkept, execute_bind_ok hkept']
  exact uniform_pure p _ _ (Alike.withCache h₂ hreg₂ hreg₂' (hinsert p))

/-! ## 3. Compiling through the cache -/

theorem uniform_requireCacheKey (c : PlanCache) (f : DefinitionId) :
    Uniform (requireCacheKey c f) := by
  refine uniform_bind (uniform_getDefinition f) fun definition =>
    uniformWith_get (fun w m => by rw [World.isKey_withMargin]) fun w => ?_
  split
  · exact uniformWith_wrongType
  · exact uniform_pure _

omit [Scrutiny] in
/-- Nothing is changed by looking whether a name can be a key. -/
theorem eq_of_requireCacheKey {c : PlanCache} {f : DefinitionId} {x : Unit}
    (h : (requireCacheKey c f).execute w = (.ok x, w')) : w' = w := by
  obtain ⟨definition, w₁, hdefinition, h⟩ := ok_of_execute_bind h
  have hw₁ : w₁ = w := by
    rw [getDefinition, execute_bind_ok (execute_get w)] at hdefinition
    cases hd : w.definitions.get? f with
    | none =>
      rw [hd] at hdefinition
      cases hdefinition
    | some d =>
      rw [hd] at hdefinition
      cases hdefinition
      rfl
  rw [execute_bind_ok (execute_get w₁)] at h
  split at h
  · cases h
  · cases h
    exact hw₁

/-- **A factory and call-time traits that are known are compiled alike.** -/
theorem uniform_compileNamed (r : RegistryId) (f : DefinitionId) (dynamic : List String) :
    Uniform (compileNamed r f dynamic) := by
  intro w w' hw
  have hdefinitions : w'.definitions = w.definitions := by rw [hw.rest]; rfl
  rw [compileNamed, execute_bind_ok (execute_get w), execute_bind_ok (execute_get w'), hdefinitions]
  dsimp only
  generalize w.definitions.nameOf f = name
  rcases hw.registryAt? r with ⟨hreg, hreg'⟩ | ⟨reg, reg', hreg, hreg', h⟩
  · rw [execute_bind, execute_bind, registry_of_execute, registry_of_execute, hreg, hreg']
    exact .error _ hw
  -- First what is old is dropped from both caches.
  have hlike := h.refreshed
  have hupdate := execute_updateCache_of (f := (·.refresh reg.generation)) h.left hreg hlike.left
  have hupdate' :=
    execute_updateCache_of (f := (·.refresh reg'.generation)) h.right hreg' hlike.right
  have hw₁ := Alike.withCache hw hreg hreg' hlike
  have hreg₁ := World.registryAt?_withCache hreg (reg.cache.refresh reg.generation)
  have hreg₁' := World.registryAt?_withCache hreg' (reg'.cache.refresh reg'.generation)
  have hnow := Registry.current_refreshed reg
  have hnow' := Registry.current_refreshed reg'
  rw [execute_bind_ok (execute_getRegistry hreg), execute_bind_ok (execute_getRegistry hreg'),
    execute_bind_ok hupdate, execute_bind_ok hupdate',
    execute_bind_ok (execute_getRegistry hreg₁), execute_bind_ok (execute_getRegistry hreg₁')]
  generalize reg.cache.refresh reg.generation = c at hlike hw₁ hreg₁ hnow
  generalize reg'.cache.refresh reg'.generation = c' at hlike hw₁ hreg₁' hnow'
  have henabled : c'.enabled = c.enabled := hlike.enabled
  have hkey : requireCacheKey c' f = requireCacheKey c f := by
    rw [requireCacheKey, requireCacheKey, henabled]
  have hplan : c'.plan? (name, dynamic) = c.plan? (name, dynamic) := by
    rw [PlanCache.plan?, PlanCache.plan?, henabled]
    split
    · rename_i hon
      have hcache : c' = { c with generation := reg'.generation } :=
        hlike.cache_eq hnow hnow' hon
      rw [hcache]
    · rfl
  dsimp only
  rw [hkey, hplan, h.traits]
  refine agree_bind (uniform_requireCacheKey c f _ _ hw₁) fun _ w₂ w₂' _ hexec hexec' h₂ => ?_
  obtain rfl := eq_of_requireCacheKey hexec
  obtain rfl := eq_of_requireCacheKey hexec'
  cases c.plan? (name, dynamic) with
  | some p => exact uniform_bind (uniform_log _ _ _) (fun _ => uniform_pure p) _ _ h₂
  | none =>
    refine agree_bind (agree_compileAnew h₂ hreg₁ hreg₁' hlike hnow hnow' _ f dynamic)
      fun stored w₃ w₃' _ hanew hanew' h₃ => ?_
    -- What has been compiled anew has left both caches of the same age.
    obtain ⟨_, c₃, _, hexec₃, _, hrenews, _, hrecached⟩ :=
      execute_compileAnew hreg₁ hlike.left.handedPlans hlike.left.handedLayers dynamic rfl
    obtain ⟨_, c₃', _, hexec₃', _, hrenews', _, hrecached'⟩ :=
      execute_compileAnew hreg₁' hlike.right.handedPlans hlike.right.handedLayers dynamic rfl
    cases hanew.symm.trans hexec₃
    cases hanew'.symm.trans hexec₃'
    have h₃' := h₃.like r _ _ hrecached.registry hrecached'.registry
    have hcurrent : ∀ {reg : Registry} {c₃ : PlanCache}, reg.Current →
        PlanCache.Renews reg.cache c₃ → { reg with cache := c₃ }.Current := by
      intro reg c₃ hnow hrenews hon
      obtain ⟨shared, placed, rfl⟩ := hrenews.kept
      exact hnow hon
    exact agree_storeCompiled h₃ hrecached.registry hrecached'.registry h₃'
      (hcurrent hnow hrenews) (hcurrent hnow' hrenews') _ stored

/-- A registry that keeps to itself compiles for itself. -/
theorem uniformWith_resolverOf (r : RegistryId) : UniformWith (· = r) (resolverOf r) :=
  uniformWith_getRegistry r (fun reg reg' h => by rw [h.left.resolver, h.right.resolver])
    fun reg h => by
      rw [h.resolver]
      exact uniformWith_pure rfl

theorem uniformWith_sourceOf (r : RegistryId) : UniformWith (· = r) (sourceOf r) :=
  uniformWith_getRegistry r (fun reg reg' h => by rw [h.left.source, h.right.source])
    fun reg h => by
      rw [h.source]
      exact uniformWith_pure rfl

/-- **A factory is compiled alike**, through whatever cache. -/
theorem uniform_compile (r : RegistryId) (factory : Value) (traits : Option Value) :
    Uniform (compile r factory traits) := by
  refine uniformWith_bind (uniformWith_resolverOf r) ?_
  rintro r rfl
  refine uniformWith_bind (uniformWith_sourceOf r) ?_
  rintro r rfl
  refine uniform_bind (uniform_findFactoryValue _ factory) fun found =>
    uniform_bind (uniform_elementsOf traits) fun refs =>
    uniform_bind (uniform_mapM refs fun _ => uniform_nameOr _ _) fun dynamic =>
    uniform_bind (uniform_requireDefinition found) fun f => ?_
  exact uniform_compileNamed r f dynamic

/-! ## 4. Switching the cache -/

theorem uniform_invalidate (r : RegistryId) : Uniform (invalidate r) := by
  refine uniformWith_bind (uniformWith_resolverOf r) ?_
  rintro r rfl
  intro w w' hw
  rcases hw.registryAt? r with ⟨hreg, hreg'⟩ | ⟨reg, reg', hreg, hreg', h⟩
  · rw [invalidateCache, updateCache, execute_bind, execute_bind, registry_of_execute,
      registry_of_execute, hreg, hreg']
    exact .error _ hw
  · have hlike := h.cleared
    rw [invalidateCache, execute_updateCache_of h.left hreg hlike.left,
      execute_updateCache_of h.right hreg' hlike.right]
    exact .ok trivial (Alike.withCache hw hreg hreg' hlike)

theorem uniform_setCache (r : RegistryId) (flag : Value) : Uniform (setCache r flag) := by
  refine uniformWith_get (fun _ _ => rfl) fun w => uniformWith_bind (uniformWith_resolverOf r) ?_
  rintro r rfl
  exact uniform_modifyRegistry r fun _ _ h => h.switched (w.isTrue flag) flag

end Action

end TraitFactory
