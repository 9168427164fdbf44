import TraitFactory.Proofs.Beside
import TraitFactory.Proofs.Amending
import TraitFactory.Proofs.Layering

/-!
# Declaring and compiling, step by step

A registry comes to what it is by declarations and compilations in any order, in any registries,
with any outcome, from a world in which nothing has been declared. Such a world stays ordinary, and
what is found out about its caches goes from step to step. A compilation makes objects, for layers and
plans, but changes none that was there: the only ones that it would change are dictionaries of its
cache, and these only where they have been handed out.
-/

namespace TraitFactory

/-! ## 1. What a compilation leaves alone -/

namespace World

/-- **A world after compilations by one registry**: of what was there only the cache of the
registry has changed. -/
structure Besides (r : RegistryId) (w w' : World) : Prop where
  definitions : w'.definitions = w.definitions
  heap : w.heap.size ≤ w'.heap.size
  plans : ∀ p s, w.stored? p = some s → w'.stored? p = some s
  others : ∀ q, q ≠ r → w'.registryAt? q = w.registryAt? q

variable {w w₁ w₂ : World} {r : RegistryId}

theorem Besides.trans (h : Besides r w w₁) (h' : Besides r w₁ w₂) : Besides r w w₂ where
  definitions := h'.definitions.trans h.definitions
  heap := Nat.le_trans h.heap h'.heap
  plans p s hs := h'.plans p s (h.plans p s hs)
  others q hq := (h'.others q hq).trans (h.others q hq)

/-- A world that differs in nothing of this. -/
theorem besides_of_eq {w' : World} (hdefinitions : w'.definitions = w.definitions)
    (hheap : w.heap.size ≤ w'.heap.size) (hplans : w'.plans = w.plans)
    (hregistries : w'.registries = w.registries) : Besides r w w' where
  definitions := hdefinitions
  heap := hheap
  plans p s hs := by rwa [stored?, hplans]
  others q _ := by rw [registryAt?, hregistries]; rfl

end World

/-- The frame of what a registry may do when it compiles. -/
def Frame.besides (r : RegistryId) : Frame :=
  ⟨World.Besides r, fun _ => World.besides_of_eq rfl (Nat.le_refl _) rfl rfl, .trans⟩

instance (r : RegistryId) : (Frame.besides r).Lenient where
  heap _ _ h := World.besides_of_eq rfl h rfl rfl
  made _ _ := World.besides_of_eq rfl (Nat.le_refl _) rfl rfl
  log _ _ := World.besides_of_eq rfl (Nat.le_refl _) rfl rfl

instance (r : RegistryId) : (Frame.besides r).Caching r where
  cache w f := by
    refine ⟨rfl, Nat.le_refl _, fun _ _ hs => hs, fun q hq => ?_⟩
    rw [World.registryAt?_modify, if_neg fun h => hq h.symm]
  plan w stored := by
    refine ⟨rfl, Nat.le_refl _, fun p s hs => ?_, fun _ _ => rfl⟩
    have hlt : p.index < w.plans.size := (Array.getElem?_eq_some_iff.mp hs).1
    show (w.plans.push stored)[p.index]? = some s
    rw [Array.getElem?_push_lt hlt]
    exact (Array.getElem?_eq_getElem hlt).symm.trans hs

namespace Action

variable {w w' : World} {r : RegistryId} {reg : Registry}

theorem besides_compile (hn : w.Neat r reg) (factory : Value) (traits : Option Value) :
    World.Besides r w ((compile r factory traits).execute w).2 := by
  rw [compile, execute_bind_ok (execute_resolverOf hn)]
  exact keeps_compileBy (F := .besides r) r factory traits w

/-- A registry that is not there compiles nothing. -/
theorem execute_compile_of_none (hnone : w.registryAt? r = none) (factory : Value)
    (traits : Option Value) : ((compile r factory traits).execute w).2 = w := by
  have hget : ∃ e, (getRegistry r).execute w = (.error e, w) := by
    rw [getRegistry, execute_bind_ok (execute_get w), hnone]
    exact ⟨_, rfl⟩
  obtain ⟨e, hget⟩ := hget
  rw [compile, resolverOf, bind_assoc, execute_bind_error hget]

/-- **A compilation leaves a world ordinary**, whatever comes of it. -/
theorem ordinary_compile (hw : w.Ordinary) (hreg : w.registryAt? r = some reg) (factory : Value)
    (traits : Option Value) : World.Ordinary ((compile r factory traits).execute w).2 := by
  have hbesides := besides_compile (hw.neat hreg) factory traits
  -- The registry that compiles is neat afterwards, and the others are what they were.
  have hneat : ∃ reg', World.Neat ((compile r factory traits).execute w).2 r reg' := by
    obtain ⟨e, w', -, hexec, hu⟩ | ⟨f, dynamic, w₁, outcome, c, w', -, hexec, hc⟩ :=
      compile_spec (hw.neat hreg) factory traits <;> rw [hexec]
    · exact ⟨reg, (hw.neat hreg).undisturbed hu⟩
    · exact ⟨_, hc.after.neat (hw.neat hreg) hc.recached⟩
  obtain ⟨reg', hneat⟩ := hneat
  refine ⟨hneat.definitions, fun q reg₁ hq => ?_, fun q reg₁ hq => ?_⟩ <;>
    by_cases hqr : q = r
  · subst hqr
    exact Option.some.inj (hneat.registry.symm.trans hq) ▸ hneat.plain
  · rw [hbesides.others q hqr] at hq
    exact hw.plain q reg₁ hq
  · subst hqr
    exact Option.some.inj (hneat.registry.symm.trans hq) ▸ hneat.names
  · rw [hbesides.others q hqr] at hq
    have hnames := hw.names q reg₁ hq
    unfold World.NamesKept at hnames ⊢
    rwa [hbesides.definitions]

/-- No registry gets more than another cache by a compilation. -/
theorem registryAt?_compile (hw : w.Ordinary) (hreg : w.registryAt? r = some reg) (factory : Value)
    (traits : Option Value) {q : RegistryId} {reg' : Registry}
    (hq : World.registryAt? ((compile r factory traits).execute w).2 q = some reg') :
    ∃ reg₀ c, w.registryAt? q = some reg₀ ∧ reg' = { reg₀ with cache := c } := by
  by_cases hqr : q = r
  · subst hqr
    obtain ⟨e, w', -, hexec, hu⟩ | ⟨f, dynamic, w₁, outcome, c, w', -, hexec, hc⟩ :=
      compile_spec (hw.neat hreg) factory traits <;> rw [hexec] at hq
    · rw [hu.registryAt?] at hq
      exact ⟨reg', reg'.cache, hq, rfl⟩
    · obtain rfl := Option.some.inj (hc.recached.registry.symm.trans hq)
      exact ⟨reg, c, hreg, rfl⟩
  · rw [(besides_compile (hw.neat hreg) factory traits).others q hqr] at hq
    exact ⟨reg', reg'.cache, hq, rfl⟩

end Action

/-! ## 2. Steps -/

namespace World

variable {w₀ w w' : World}

/-- **A world in which nothing has been declared**: its registries are new. -/
structure Blank (w : World) : Prop where
  definitions : w.definitions = ∅
  registries : ∀ r reg, w.registryAt? r = some reg → reg = {}

/-- **One step**: something is declared, by any command that declares anything, in any registry; a
registry compiles, which may fail; or something happens that does neither. -/
inductive Advance (w : World) : World → Prop
  | declared {c : Command} (hc : c.declares) (hrefers : c.Refers w) (host : Host) :
      Advance w ((Action.performCommand host c).execute w).2
  | compiled (r : RegistryId) (factory : Value) (traits : Option Value) :
      Advance w ((Action.compile r factory traits).execute w).2
  | beside {w' : World} (h : w.Retained w') : Advance w w'

/-- **A world that steps have led to** from another. -/
def Advanced : World → World → Prop := Relation.ReflTransGen Advance

theorem Advanced.trans {w₁ : World} (h : w₀.Advanced w₁) (h' : w₁.Advanced w) : w₀.Advanced w :=
  Relation.ReflTransGen.trans h h'

theorem get?_empty_definitions (d : DefinitionId) : (∅ : Definitions).get? d = none := by
  cases d
  rfl

theorem Blank.ordinary (h : w.Blank) : w.Ordinary where
  definitions d x hd := by
    rw [h.definitions, get?_empty_definitions] at hd
    cases hd
  plain r reg hreg := h.registries r reg hreg ▸ plain_empty_registry
  names r reg hreg := by
    rw [h.registries r reg hreg]
    intro name f hf
    cases hf

/-- **A step edits the world**, or is a compilation by a registry that is there. -/
theorem Advance.edited_or_compiled (hw : w.Ordinary) (h : w.Advance w') :
    w.Edited w' ∨ ∃ r reg factory traits, w.registryAt? r = some reg ∧
      w' = ((Action.compile r factory traits).execute w).2 := by
  cases h with
  | declared hc hrefers host => exact .inl (Action.edits_command hw hc hrefers host)
  | compiled r factory traits =>
    rcases hreg : w.registryAt? r with _ | reg
    · rw [Action.execute_compile_of_none hreg]
      exact .inl .refl
    · exact .inr ⟨r, reg, factory, traits, hreg, rfl⟩
  | beside h => exact .inl h.edited

theorem Ordinary.advance (hw : w.Ordinary) (h : w.Advance w') : w'.Ordinary := by
  obtain hedited | ⟨r, reg, factory, traits, hreg, rfl⟩ := h.edited_or_compiled hw
  · exact hw.edited hedited
  · exact Action.ordinary_compile hw hreg factory traits

theorem Ordinary.advanced (hw : w₀.Ordinary) (h : w₀.Advanced w) : w.Ordinary := by
  induction h with
  | refl => exact hw
  | tail _ hstep ih => exact ih.advance hstep

/-- **What edits keep, and compilations, holds wherever steps lead.** -/
theorem Advanced.induction {I : World → Prop} (hw : w₀.Ordinary) (hstart : I w₀)
    (hedit : ∀ w w', w.Ordinary → w.Edit w' → I w → I w')
    (hcompile : ∀ w r factory traits, w.Ordinary → I w →
      (∃ reg, w.registryAt? r = some reg) → I ((Action.compile r factory traits).execute w).2)
    (h : w₀.Advanced w) : I w := by
  have hedited : ∀ {w w'}, w.Ordinary → w.Edited w' → I w → I w' := by
    intro w w' hw h hI
    suffices w'.Ordinary ∧ I w' from this.2
    induction h with
    | refl => exact ⟨hw, hI⟩
    | tail _ hstep ih => exact ⟨ih.1.edit hstep, hedit _ _ ih.1 hstep ih.2⟩
  induction h with
  | refl => exact hstart
  | tail hrun hstep ih =>
    have hw := hw.advanced hrun
    obtain h | ⟨r, reg, factory, traits, hreg, rfl⟩ := hstep.edited_or_compiled hw
    · exact hedited hw h ih
    · exact hcompile _ r factory traits hw ih ⟨reg, hreg⟩

end World

/-! ## 3. Caches that have handed nothing out -/

/-- A cache whose dictionaries nobody else has. -/
def PlanCache.Unhanded (c : PlanCache) : Prop := c.handedPlans = none ∧ c.handedLayers = none

/-- A registry's cache has handed nothing out, if there is such a registry. -/
def World.Unhanded (w : World) (r : RegistryId) : Prop :=
  ∀ reg, w.registryAt? r = some reg → reg.cache.Unhanded

namespace PlanCache

variable {c c' : PlanCache}

theorem Unhanded.renews (h : c.Unhanded) (hrenews : Renews c c') : c'.Unhanded := by
  obtain ⟨shared, placed, rfl⟩ := hrenews.kept
  exact h

theorem Unhanded.refresh (h : c.Unhanded) (generation : Int) : (c.refresh generation).Unhanded := by
  unfold PlanCache.refresh
  split <;> exact h

theorem Unhanded.insertPlan (h : c.Unhanded) (key : PlanKey) (p : PlanId) :
    (c.insertPlan key p).Unhanded := by
  unfold PlanCache.insertPlan
  split <;> exact h

end PlanCache

theorem Registry.Plain.unhanded {reg : Registry} (h : reg.Plain) : reg.cache.Unhanded :=
  ⟨h.handedPlans, h.handedLayers⟩

/-- The frame of what changes no object, as long as a cache has handed nothing out. -/
def Frame.leaving (r : RegistryId) : Frame where
  rel w w' := w.Unhanded r → w'.Unhanded r ∧ w.Widened w'
  refl w h := ⟨h, .refl w⟩
  trans h h' hw := ⟨(h' (h hw).1).1, (h hw).2.trans (h' (h hw).1).2⟩

theorem World.widened_alloc (w : World) (x : Object) :
    w.Widened { w with heap := (w.heap.alloc x).2 } where
  objects o y hy := by
    have hlt : o.index < w.heap.objects.size := (Array.getElem?_eq_some_iff.mp hy).1
    show (w.heap.objects.push x)[o.index]? = some y
    rw [Array.getElem?_push_lt hlt]
    exact (Array.getElem?_eq_getElem hlt).symm.trans hy
  functions _ _ h := h

instance (r : RegistryId) : (Frame.leaving r).Roomy where
  object w x h := ⟨h, w.widened_alloc x⟩
  serial _ _ h := ⟨h, fun _ _ h => h, fun _ _ h => h⟩

/-! ## 4. What a compilation leaves as it is -/

namespace Action

variable {r : RegistryId}

theorem leaves_log (level : LogLevel) (logger message : String) :
    Keeps (.leaving r) (log level logger message) :=
  fun _ h => ⟨h, fun _ _ h => h, fun _ _ h => h⟩

theorem leaves_newPlan (s : StoredPlan) : Keeps (.leaving r) (newPlan s) :=
  fun _ h => ⟨h, fun _ _ h => h, fun _ _ h => h⟩

/-- A cache that has handed nothing out is changed without any object. -/
theorem leaves_updateCache {f : PlanCache → PlanCache} (hf : ∀ c, c.Unhanded → (f c).Unhanded) :
    Keeps (.leaving r) (updateCache r f) := by
  intro w h
  rcases hreg : w.registryAt? r with _ | reg
  · have hget : ∃ e, (getRegistry r).execute w = (.error e, w) := by
      rw [getRegistry, execute_bind_ok (execute_get w), hreg]
      exact ⟨_, rfl⟩
    obtain ⟨e, hget⟩ := hget
    rw [updateCache, execute_bind_error hget]
    exact ⟨h, .refl w⟩
  · have hafter := hf _ (h reg hreg)
    rw [execute_updateCache hreg f (h reg hreg).1 (h reg hreg).2 hafter.1 hafter.2]
    refine ⟨fun reg' hreg' => ?_, fun _ _ h => h, fun _ _ h => h⟩
    cases (World.registryAt?_withCache hreg (f reg.cache)).symm.trans hreg'
    exact hafter

/-- What giving layers their objects makes of a cache. -/
theorem gives_placeStatic (ds : Definitions) (levels : List DefinitionId) {c : PlanCache}
    (h : c.Unhanded) : Gives (fun x => x.2.Unhanded) (placeStatic ds levels c) := by
  intro w x hx
  obtain ⟨kept, placed, w', hexec, _⟩ := placeStatic_spec ds levels c w
  rw [hexec] at hx
  cases hx
  exact h

theorem leaves_compileAnew (global : Slot (Table DefinitionId)) (f : DefinitionId)
    (dynamic : List String) : Keeps (.leaving r) (compileAnew r global f dynamic) := by
  intro w h
  rcases hreg : w.registryAt? r with _ | reg
  · have hget : ∃ e, (getRegistry r).execute w = (.error e, w) := by
      rw [getRegistry, execute_bind_ok (execute_get w), hreg]
      exact ⟨_, rfl⟩
    obtain ⟨e, hget⟩ := hget
    rw [compileAnew, execute_bind_ok (execute_get w)]
    dsimp only
    rw [execute_bind_error hget]
    exact ⟨h, .refl w⟩
  have hrest : ∀ inherited, ∀ x : List ObjectId × PlanCache, x.2.Unhanded → Keeps (.leaving r) (do
      updateCache r fun _ => x.2
      let plan ← liftExcept (Except.bind inherited (w.planOn global f dynamic))
      let added ← (plan.layers.drop x.1.length).mapM fun l => place (.layer l)
      return (⟨plan, x.1 ++ added⟩ : StoredPlan)) := fun _ _ hx =>
    keeps_bind (leaves_updateCache fun _ _ => hx) fun _ => keeps_bind (keeps_liftExcept _) fun _ =>
      keeps_bind (keeps_mapM _ fun l => keeps_place _) fun _ => keeps_pure _
  have hcache : PlanCache.Unhanded (w.cachedStaticLayers global
      (w.definitions.foundation (w.definitions.lineage f)) (w.definitions.lineage f).levels
        reg.cache).2 :=
    (h reg hreg).renews (w.cachedStaticLayers_renews _ _ _ _)
  rw [compileAnew, execute_bind_ok (execute_get w)]
  dsimp only
  rw [execute_bind_ok (execute_getRegistry hreg)]
  split
  · exact keeps_bind_of (keeps_placeStatic _ _ _) (gives_placeStatic _ _ hcache) (hrest _) w h
  · have hpure : Gives (fun x : List ObjectId × PlanCache => x.2.Unhanded) (pure ([], _)) :=
      gives_pure hcache
    exact keeps_bind_of (keeps_pure _) hpure (hrest _) w h

theorem leaves_compileNamed (f : DefinitionId) (dynamic : List String) :
    Keeps (.leaving r) (compileNamed r f dynamic) := by
  refine keeps_bind keeps_get fun w => keeps_bind (keeps_getRegistry r) fun registry =>
    keeps_bind (leaves_updateCache fun _ h => h.refresh _) fun _ =>
    keeps_bind (keeps_getRegistry r) fun reg => keeps_bind (keeps_requireCacheKey _ _) fun _ => ?_
  split
  · exact keeps_bind (leaves_log _ _ _) fun _ => keeps_pure _
  · exact keeps_bind (leaves_compileAnew _ f _) fun stored => keeps_bind (leaves_log _ _ _) fun _ =>
      keeps_bind (leaves_newPlan _) fun _ =>
      keeps_bind (leaves_updateCache fun _ h => h.insertPlan _ _) fun _ => keeps_pure _

/-- **No compilation changes an object**, unless the traits that it is given change when they are
gone through. -/
theorem widened_compile {w : World} {reg : Registry} (hn : w.Neat r reg) (factory : Value)
    {traits : Option Value} {items : List Value}
    (htraits : (elementsOf traits).execute w = (.ok items, w)) :
    w.Widened ((compile r factory traits).execute w).2 := by
  -- The arguments are only read.
  have hread : ((named reg factory traits).execute w).2 = w := by
    have hname : ((factoryName factory).execute w).2 = w :=
      keeps_nameOr (F := .same) Cause.factoryNotFound factory w
    rcases hfactory : (factoryName factory).execute w with ⟨e | name, w₁⟩ <;> rw [hfactory] at hname
    · rw [named, execute_bind_error hfactory]
      exact hname
    · rw [named, execute_bind_ok hfactory, show w₁ = w from hname]
      split
      · rw [execute_bind_ok htraits]
        exact keeps_bind (F := .same) (keeps_mapM _ fun ref => keeps_nameOr _ ref)
          (fun _ => keeps_pure _) w
      · rfl
  have hunhanded : w.Unhanded r := fun reg' hreg' => by
    cases hn.registry.symm.trans hreg'
    exact hn.plain.unhanded
  rw [execute_compile hn.registry hn.plain]
  rcases hnamed : (named reg factory traits).execute w with ⟨e | ⟨f, dynamic⟩, w₁⟩ <;>
    rw [hnamed] at hread
  · rw [execute_bind_error hnamed, show w₁ = w from hread]
    exact .refl w
  · rw [execute_bind_ok hnamed, show w₁ = w from hread]
    exact (leaves_compileNamed f dynamic w hunhanded).2

/-- A compilation lists nothing. -/
theorem precedes_compile {w : World} {reg : Registry} (hw : w.Ordinary)
    (hreg : w.registryAt? r = some reg) (factory : Value) (traits : Option Value) :
    w.Precedes ((compile r factory traits).execute w).2 := by
  have hbesides := besides_compile (hw.neat hreg) factory traits
  refine ⟨fun d x hd => ⟨x, by rw [hbesides.definitions, hd], .refl x⟩, fun q reg₀ hq => ?_⟩
  by_cases hqr : q = r
  · subst hqr
    obtain rfl := Option.some.inj (hreg.symm.trans hq)
    obtain ⟨e, w', -, hexec, hu⟩ | ⟨f, dynamic, w₁, outcome, c, w', -, hexec, hc⟩ :=
      compile_spec (hw.neat hreg) factory traits <;> rw [hexec]
    · exact ⟨reg, by rw [hu.registryAt?, hreg], .of_eq rfl rfl⟩
    · exact ⟨_, hc.recached.registry, .of_eq rfl rfl⟩
  · exact ⟨reg₀, by rw [hbesides.others q hqr, hq], .of_eq rfl rfl⟩

end Action

/-! ## 5. Runs that forget nothing -/

namespace World

variable {w₀ w w' : World}

/-- **One step that forgets nothing**: any but a reset. -/
inductive Gain (w : World) : World → Prop
  | declared {c : Command} (hc : c.declares) (hkeeps : c.forgets = false) (hrefers : c.Refers w)
      (host : Host) : Gain w ((Action.performCommand host c).execute w).2
  | compiled (r : RegistryId) (factory : Value) (traits : Option Value) :
      Gain w ((Action.compile r factory traits).execute w).2
  | beside {w' : World} (h : w.Retained w') : Gain w w'

/-- **A world that steps have led to** from another without a reset. -/
def Gained : World → World → Prop := Relation.ReflTransGen Gain

theorem Gain.advance (h : w.Gain w') : w.Advance w' := by
  cases h with
  | declared hc _ hrefers host => exact .declared hc hrefers host
  | compiled r factory traits => exact .compiled r factory traits
  | beside h => exact .beside h

theorem Gained.advanced (h : w.Gained w') : w.Advanced w' :=
  Relation.ReflTransGen.mono (fun _ _ hstep => Gain.advance hstep) _ _ h

/-- A step that forgets nothing leaves all that is listed in its place. -/
theorem Ordinary.precedes_gain (hw : w.Ordinary) (h : w.Gain w') : w.Precedes w' := by
  cases h with
  | declared hc hkeeps hrefers host => exact (Action.accrues_command hw hc hkeeps hrefers host).2
  | compiled r factory traits =>
    rcases hreg : w.registryAt? r with _ | reg
    · rw [Action.execute_compile_of_none hreg]
      exact .refl w
    · exact Action.precedes_compile hw hreg factory traits
  | beside h => exact h.precedes

/-- **What was listed comes first in what is listed later**, as long as nothing is forgotten. -/
theorem Ordinary.precedes_gained (hw : w₀.Ordinary) (h : w₀.Gained w) : w₀.Precedes w := by
  suffices w.Ordinary ∧ w₀.Precedes w from this.2
  induction h with
  | refl => exact ⟨hw, .refl w₀⟩
  | tail _ hstep ih => exact ⟨ih.1.advance hstep.advance, ih.2.trans (ih.1.precedes_gain hstep)⟩

end World

end TraitFactory
