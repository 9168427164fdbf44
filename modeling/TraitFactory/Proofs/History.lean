import TraitFactory.Proofs.Transparency

/-!
# What was compiled before

A cache that is filled by one compilation serves the next ones. Whether that shows depends on one
thing alone: the cache keeps static layers under the names of levels, so levels of registered
factories that share a name must share their static layers. Where they do, no compilation can tell
what was compiled before it. Where they do not, a level is given the layers of its namesake, and both
its plans and its instances show it.
-/

namespace TraitFactory

/-! ## 1. Compilations one after another -/

/-- A world after some calls of the compiler, whatever came of them. -/
def Action.compileAll (r : RegistryId) : List (Value × Option Value) → World → World
  | [], w => w
  | call :: calls, w => compileAll r calls ((compile r call.1 call.2).execute w).2

namespace World

/-- The static layers that a compilation of a factory takes for some of its levels: from the cache
as it is when the compilation looks into it. -/
def takenLayers (w : World) (reg : Registry) (f : DefinitionId) (levels : List DefinitionId) :
    Except Failure (List Layer) :=
  (w.cachedStaticLayers (.own reg.globals) (w.definitions.foundation (w.definitions.lineage f))
    levels (reg.cache.refresh reg.generation)).1

/-- The static layers that the levels have themselves. -/
def ownLayers (w : World) (reg : Registry) (f : DefinitionId) (levels : List DefinitionId) :
    Except Failure (List Layer) :=
  w.staticLayers (.own reg.globals) (w.definitions.foundation (w.definitions.lineage f)) levels

end World

namespace Action

variable {r : RegistryId} {w w' : World} {reg : Registry}

/-- **Independence of what was compiled before.** After any compilations, also after none, a call
comes to what it asks for is compiled to without a cache; and from each level of a registered
factory on, the layers that are taken are the levels' own. -/
structure HistoryIndependent (r : RegistryId) (w : World) (reg : Registry) : Prop where
  outcome : ∀ calls factory traits f dynamic,
    Asks (compileAll r calls w) reg factory traits f dynamic →
      ComesTo r factory traits (compileAll r calls w) (w.compile (.own reg.globals) f dynamic)
  layers : ∀ calls reg' name f levels, (compileAll r calls w).registryAt? r = some reg' →
    reg.factory? name = some f → levels <:+ w.definitions.levels f →
      (compileAll r calls w).takenLayers reg' f levels = w.ownLayers reg f levels

/-! ## 2. Coherence is enough -/

/-- Compilations change nothing but the cache, which stays right. -/
theorem tracked_compileAll (h : w.Tracked r reg) (hco : w.Coherent reg)
    (calls : List (Value × Option Value)) :
    ∃ c, (compileAll r calls w).Tracked r { reg with cache := c } ∧
      (compileAll r calls w).definitions = w.definitions := by
  induction calls generalizing w reg with
  | nil => exact ⟨reg.cache, h, rfl⟩
  | cons call calls ih =>
    rw [compileAll]
    -- A call that fails on its arguments disturbs nothing; any other leaves a sound cache.
    obtain ⟨e, w₁, _, hexec, hu⟩ | ⟨f, dynamic, _, outcome, c, w₁, _, hexec, hc⟩ :=
      compile_spec h.neat call.1 call.2 <;> rw [hexec]
    · have hn₁ := h.neat.undisturbed hu
      have hgrows : w₁.Extends w := (World.Undisturbed.aside (r := r) hu).grows
      have h₁ : w₁.Tracked r reg := ⟨⟨hn₁, h.past⟩, fun hgen =>
        World.Sound.extend h.neat.definitions hn₁.definitions hgrows (.refl reg) (h.sound hgen)⟩
      obtain ⟨c, hc, hdefinitions⟩ :=
        ih h₁ (hco.congr h.neat.definitions hu.definitions (.refl reg))
      exact ⟨c, hc, hdefinitions.trans hu.definitions⟩
    · have htables := World.sameTables_cache reg c
      obtain ⟨c', hc', hdefinitions⟩ :=
        ih (hc.tracked h hco) (hco.congr h.neat.definitions hc.recached.definitions htables)
      exact ⟨c', hc', hdefinitions.trans hc.recached.definitions⟩

/-- In a coherent registry with a sound cache the layers that are taken are the levels' own. -/
theorem takenLayers_eq (hco : w.Coherent reg) (hs : reg.cache.generation = reg.generation →
    reg.cache.Sound w reg) {name : String} {f : DefinitionId} (hf : reg.factory? name = some f)
    {levels : List DefinitionId} (hlevels : levels <:+ w.definitions.levels f) :
    w.takenLayers reg f levels = w.ownLayers reg f levels := by
  have hsound : (reg.cache.refresh reg.generation).enabled = true →
      (reg.cache.refresh reg.generation).SharedSound w reg := fun henabled =>
    (sound_refresh hs (generation_refresh ((cacheAfter_refresh reg).enabled ▸ henabled) _)).shared
  obtain ⟨c, hc, _⟩ := hco.cachedStaticLayers_eq hf hlevels hsound
  rw [World.takenLayers, hc]
  rfl

/-- What the levels have themselves is a matter of the definitions alone. -/
theorem ownLayers_congr (hw : w.definitions.Plain) (hs : w'.definitions = w.definitions)
    {f : DefinitionId} {levels : List DefinitionId}
    (hlevels : levels <:+ w.definitions.levels f) :
    w'.ownLayers reg f levels = w.ownLayers reg f levels := by
  unfold World.ownLayers Definitions.foundation
  rw [hs]
  split
  · cases levels with
    | nil => rfl
    | cons l older =>
      obtain ⟨nearer, hnearer⟩ := hlevels
      -- Some level of a closed lineage is one with an ancestry of its own.
      exact World.staticLayers_congr hw hs
        ((Definitions.ancestry_lineage ‹_›).suffix hnearer.symm)
  · rw [World.staticLayers_error, World.staticLayers_error]

/-! ## 3. Coherence is needed -/

/-- A level under whose name something is kept is given that. -/
theorem takenLayers_of_shared {layers : List Layer} (henabled : reg.cache.enabled = true)
    (hgen : reg.cache.generation = reg.generation) {f l : DefinitionId}
    {older : List DefinitionId}
    (h : reg.cache.shared.get? (w.definitions.nameOf l) = some layers) :
    w.takenLayers reg f (l :: older) = .ok layers := by
  have hrefresh : reg.cache.refresh reg.generation = reg.cache := by
    simp [PlanCache.refresh, hgen]
  have hshared : reg.cache.shared? (w.definitions.nameOf l) = some layers := by
    rw [PlanCache.shared?, if_pos henabled, h]
  rw [World.takenLayers, hrefresh, World.cachedStaticLayers, hshared]

/-- A level whose layers are there has them as its static layers. -/
theorem hasStatic_of_ownLayers {f l : DefinitionId} {nearer older : List DefinitionId}
    {layers : List Layer} (hl : w.definitions.levels f = nearer ++ l :: older)
    (h : w.ownLayers reg f (l :: older) = .ok layers) : w.HasStatic reg l layers := by
  unfold World.ownLayers Definitions.foundation at h
  split at h
  · exact ⟨_, (Definitions.ancestry_lineage ‹_›).suffix hl, h⟩
  · rw [World.staticLayers_error] at h
    cases h

/-- **Where no compilation can tell what was compiled before, the registry is coherent**: once a
factory has been compiled, all levels with the name of one of its levels are given the same. -/
theorem coherent_of_independent (hn : w.Neat r reg) (henabled : reg.cache.enabled = true)
    (hfresh : reg.Fresh) (h : HistoryIndependent r w reg) : w.Coherent reg := by
  rintro l m layers ⟨name, f, hf, hl⟩ hm hname hstatic
  have hlevel : w.IsLevel reg l := ⟨name, f, hf, hl⟩
  obtain ⟨e, w', hnamed, _, _⟩ | ⟨f', dynamic, w₁, outcome, c, w', hnamed, hexec, hc⟩ :=
    compile_spec hn (.text name) none
  · rw [named_text hf] at hnamed
    cases hnamed
  · rw [named_text hf] at hnamed
    cases hnamed
    -- The compilation of the factory leaves something under the name of its level.
    obtain ⟨kept, hkept⟩ :=
      Option.isSome_iff_exists.mp (hc.fills henabled hfresh l hl layers hstatic)
    have hdefinitions := hc.recached.definitions
    -- Every level of that name is given what is kept there, and is to be given its own.
    have htaken : ∀ k, w.IsLevel reg k → w.definitions.nameOf k = w.definitions.nameOf l →
        w.HasStatic reg k kept := by
      rintro k ⟨name', g, hg, hk⟩ hnamek
      obtain ⟨nearer, older, hsplit⟩ := List.mem_iff_append.mp hk
      have hown := h.layers [(.text name, none)] { reg with cache := c } name' g (k :: older)
        (by rw [compileAll, hexec]; exact hc.recached.registry) hg ⟨nearer, hsplit.symm⟩
      rw [compileAll, hexec, compileAll, takenLayers_of_shared (hc.after.enabled.trans henabled)
        (hc.present henabled) (by rw [hdefinitions, hnamek]; exact hkept)] at hown
      exact hasStatic_of_ownLayers hsplit hown.symm
    have hsame := (htaken l hlevel rfl).unique hstatic
    exact hsame ▸ htaken m hm hname.symm

/-! ## 4. The exact condition -/

/-- **No compilation can tell what was compiled before just when the registry is coherent**: levels
of registered factories that share a name share their static layers. This is said of every state
that any public steps lead to, as it is after a change of the registry. -/
theorem history_independent_iff {w₀ w₁ : World} (hstart : w₀.Neat r {}) (hrun : FreeRun r w₀ w₁)
    (hchange : w₁.Changed r w) (hreg : w.registryAt? r = some reg)
    (henabled : reg.cache.enabled = true) : HistoryIndependent r w reg ↔ w.Coherent reg := by
  obtain ⟨reg₁, h₁⟩ := dated_freeRun (World.tracked_new hstart).toDated hrun
  obtain ⟨reg', hn, _, _, hpast⟩ := h₁.changed hchange
  obtain rfl := Option.some.inj (hreg.symm.trans hn.registry)
  -- The change has raised the generation, so nothing that is cached counts.
  have hstale : reg.cache.generation = reg.generation → False := Int.ne_of_lt hpast
  have h : w.Tracked r reg := ⟨⟨hn, Int.le_of_lt hpast⟩, fun hgen => (hstale hgen).elim⟩
  refine ⟨coherent_of_independent hn henabled fun hgen => (hstale hgen).elim, fun hco => ?_⟩
  refine ⟨fun calls factory traits f dynamic ha => ?_,
    fun calls reg' name f levels hreg' hf hlevels => ?_⟩ <;>
    obtain ⟨c, hc, hdefinitions⟩ := tracked_compileAll h hco calls
  · have hco' := hco.congr hn.definitions hdefinitions (World.sameTables_cache reg c)
    obtain ⟨w', hnamed⟩ := named_of_asks ha
    have hnamed : (named { reg with cache := c } factory traits).execute (compileAll r calls w) =
        (.ok (f, dynamic), w') := hnamed
    have hcomes : ComesTo r factory traits (compileAll r calls w)
        (ruled (compileAll r calls w) { reg with cache := c } factory traits) :=
      comesTo_ruled hc hco'
    rw [ruled, hnamed] at hcomes
    have hcompile : (compileAll r calls w).compile (.own reg.globals) f dynamic =
        w.compile (.own reg.globals) f dynamic := World.compile_congr hn.definitions hdefinitions
    exact hcompile ▸ hcomes
  · have hco' := hco.congr hn.definitions hdefinitions (World.sameTables_cache reg c)
    obtain rfl := Option.some.inj (hreg'.symm.trans hc.neat.registry)
    have hlevels' : levels <:+ (compileAll r calls w).definitions.levels f := by
      rwa [hdefinitions]
    rw [takenLayers_eq hco' hc.sound hf hlevels']
    exact ownLayers_congr hn.definitions hdefinitions hlevels

/-- In a family of factories no compilation can tell what was compiled before. -/
theorem history_independent_family : ∃ reg,
    (World.family.modifyRegistry ⟨0⟩ Registry.touch).registryAt? ⟨0⟩ = some reg ∧
      HistoryIndependent ⟨0⟩ (World.family.modifyRegistry ⟨0⟩ Registry.touch) reg := by
  -- Said of any world, so that the one at hand is never unfolded.
  have hindependent : ∀ w, Run ⟨0⟩ World.fresh w → w.ParentsKnown ⟨0⟩ →
      (w.registryAt? ⟨0⟩).all (·.cache.enabled) = true →
      ∃ reg, (w.modifyRegistry ⟨0⟩ Registry.touch).registryAt? ⟨0⟩ = some reg ∧
        HistoryIndependent ⟨0⟩ (w.modifyRegistry ⟨0⟩ Registry.touch) reg := by
    intro w hrun hparents hon
    obtain ⟨reg, h⟩ := tracked_run (World.tracked_new World.neat_fresh) hrun
    have hreg := World.registryAt?_modifyRegistry h.neat.registry Registry.touch
    have hco : (w.modifyRegistry ⟨0⟩ Registry.touch).Coherent reg.touch :=
      (h.coherent hparents).congr h.neat.definitions rfl ⟨rfl, rfl⟩
    rw [h.neat.registry] at hon
    exact ⟨reg.touch, hreg,
      (history_independent_iff World.neat_fresh hrun.free World.changed_touch hreg hon).mpr hco⟩
  exact hindependent _ World.run_family World.parentsKnown_family (by decide +kernel)

/-! ## 5. Two factories of one name -/

/-- A factory that a reset has removed, another one of the same name, and a child of the first. -/
def namesakes : World :=
  (((((World.fresh.after
    (.defineFactory (some (.registry ⟨0⟩)) (.text "base") .null .null none)).after
    (.set (.builder ⟨0⟩) (.text "rank") (some (.int 1)) .null)).after
    (.resetRegistry (some (.registry ⟨0⟩)))).after
    (.defineFactory (some (.registry ⟨0⟩)) (.text "base") .null .null none)).after
    (.set (.builder ⟨1⟩) (.text "rank") (some (.int 2)) .null)).after
    (.childFactory (.builder ⟨0⟩) (.text "child") .null none)

theorem run_namesakes : Run ⟨0⟩ World.fresh namesakes := by
  refine World.run_after ?_ (.childFactory (World.builds_of_builder (by decide +kernel)) _ _ _)
  refine World.run_after ?_ (.set (World.builds_of_builder (by decide +kernel)) _ _ _)
  refine World.run_after ?_ (.defineFactory (by rfl) _ _ _ _)
  refine World.run_after ?_ (.resetRegistry (by rfl))
  refine World.run_after ?_ (.set (World.builds_of_builder (by decide +kernel)) _ _ _)
  exact World.run_after .refl (.defineFactory (by rfl) _ _ _ _)

/-- What the plan of a call declares under a name. -/
def foundIn (r : RegistryId) (factory : Value) (name : String) (w : World) :
    Option AttributeValue :=
  (planOf r factory none w).toOption.join.bind fun plan => (plan.declaration? name).map (·.value)

/-- **What was compiled before shows** where two factories have one name: the child has what its
parent declares, unless the namesake of its parent has been compiled before. -/
theorem namesake_shows : Run ⟨0⟩ World.fresh namesakes ∧
    foundIn ⟨0⟩ (.text "child") "rank" namesakes = some (.fixed (.int 1) false) ∧
    foundIn ⟨0⟩ (.text "child") "rank" (compileAll ⟨0⟩ [(.text "base", none)] namesakes) =
      some (.fixed (.int 2) false) :=
  ⟨run_namesakes, by decide +kernel, by decide +kernel⟩

/-- What a run has left under a name of the instance that it gave. -/
def fieldAfter (name : String) (outcome : Except Failure Value × World) : Option Value :=
  match outcome.1 with
  | .ok v =>
    match outcome.2.heap.object? v with
    | some (.record _ fields) => fields.get? name
    | _ => none
  | .error _ => none

/-- A run of `build` for a factory. -/
def buildOf (factory : String) : RunInput where
  strategy := .keyword (.strategy .build)
  factory := .text factory

/-- **What was built before shows** where two factories have one name: an instance of the child has
what its parent declares, unless the namesake of its parent has been built before. -/
theorem namesake_built : Run ⟨0⟩ World.fresh namesakes ∧
    fieldAfter "rank" ((run (Host.ofDepth 1) ⟨0⟩ (buildOf "child")).execute namesakes) =
      some (.int 1) ∧
    fieldAfter "rank" ((run (Host.ofDepth 1) ⟨0⟩ (buildOf "child")).execute
      ((run (Host.ofDepth 1) ⟨0⟩ (buildOf "base")).execute namesakes).2) = some (.int 2) :=
  ⟨run_namesakes, by decide +kernel, by decide +kernel⟩

end Action

end TraitFactory
