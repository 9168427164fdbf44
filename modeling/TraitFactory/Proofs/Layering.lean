import TraitFactory.Proofs.Compiling

/-!
# What plans are made of

What holds of every layer that a compilation makes, and of those that a cache has kept, holds of
all layers of the plan that it comes to and of all that is kept afterwards. Failures are traced in
the same way to what fails. None of this asks whether what is kept is still right: the cache need
not be sound, nor the registry coherent.
-/

namespace TraitFactory

/-! ## 1. Layers and failures with a property -/

/-- **An outcome in which every layer has one property**, or in which the failure has another. -/
structure Lays (P : Layer → Prop) (E : Failure → Prop) (x : Except Failure (List Layer)) :
    Prop where
  layers : ∀ layers, x = .ok layers → ∀ l ∈ layers, P l
  failure : ∀ e, x = .error e → E e

/-- **A plan that was assembled** from layers with a property. -/
structure Plan.MadeOf (P : Layer → Prop) (p : Plan) : Prop where
  assembled : ∃ factory model traits, p = .assemble factory model traits p.layers
  layers : ∀ l ∈ p.layers, P l

/-- Such a plan is stored. -/
def World.Stores (w : World) (P : Layer → Prop) (p : PlanId) : Prop :=
  ∃ s, w.stored? p = some s ∧ s.plan.MadeOf P

namespace PlanCache

/-- All layers that are kept under names of factories have a property. -/
def Shelves (P : Layer → Prop) (c : PlanCache) : Prop :=
  ∀ name layers, c.shared.get? name = some layers → ∀ l ∈ layers, P l

/-- **A cache of layers with a property**: those that it keeps, and those of its plans. -/
structure MadeOf (P : Layer → Prop) (w : World) (c : PlanCache) : Prop where
  shared : c.Shelves P
  plans : ∀ key p, c.plans.lookup key = some p → w.Stores P p

end PlanCache

variable {P Q : Layer → Prop} {E : Failure → Prop} {w w' : World} {c : PlanCache}

theorem Plan.MadeOf.mono {p : Plan} (h : p.MadeOf P) (hpq : ∀ l, P l → Q l) : p.MadeOf Q :=
  ⟨h.assembled, fun l hl => hpq l (h.layers l hl)⟩

theorem World.Stores.mono {p : PlanId} (h : w.Stores P p) (hpq : ∀ l, P l → Q l)
    (hplans : ∀ p s, w.stored? p = some s → w'.stored? p = some s) : w'.Stores Q p := by
  obtain ⟨s, hs, hmade⟩ := h
  exact ⟨s, hplans p s hs, hmade.mono hpq⟩

theorem PlanCache.MadeOf.mono (h : c.MadeOf P w) (hpq : ∀ l, P l → Q l)
    (hplans : ∀ p s, w.stored? p = some s → w'.stored? p = some s) : c.MadeOf Q w' :=
  ⟨fun name layers hl l hmem => hpq l (h.shared name layers hl l hmem),
    fun key p hp => (h.plans key p hp).mono hpq hplans⟩

namespace Lays

variable {x : Except Failure (List Layer)}

theorem ok {layers : List Layer} (h : ∀ l ∈ layers, P l) : Lays P E (.ok layers) :=
  ⟨fun _ hx => Except.ok.inj hx ▸ h, fun _ hx => by cases hx⟩

theorem error {e : Failure} (h : E e) : Lays P E (.error e) :=
  ⟨fun _ hx => (by cases hx), fun _ hx => Except.error.inj hx ▸ h⟩

theorem mono (h : Lays P E x) (hpq : ∀ l, P l → Q l) : Lays Q E x :=
  ⟨fun layers hx l hl => hpq l (h.layers layers hx l hl), h.failure⟩

end Lays

namespace PlanCache.Shelves

theorem keepShared (h : c.Shelves P) (name : String) {layers : List Layer}
    (hlayers : ∀ l ∈ layers, P l) :
    (∀ l ∈ (c.keepShared name layers).1, P l) ∧ (c.keepShared name layers).2.Shelves P := by
  unfold PlanCache.keepShared
  split
  · split
    · exact ⟨h name _ ‹_›, h⟩
    · refine ⟨hlayers, fun other kept hkept => ?_⟩
      by_cases hname : other = name
      · subst hname
        rw [Table.get?_insert_self] at hkept
        cases hkept
        exact hlayers
      · rw [Table.get?_insert_of_ne _ _ hname] at hkept
        exact h other kept hkept
  · exact ⟨hlayers, h⟩

end PlanCache.Shelves

/-- **Static layers through a cache** are layers of the levels, or were kept; and so is what the
cache keeps afterwards. -/
theorem World.lays_cached {global : Slot (Table DefinitionId)}
    {above : Except Failure (List Layer)} (habove : Lays P E above) {levels : List DefinitionId}
    (hlevels : ∀ level ∈ levels, Lays P E (w.levelLayers global level)) (hc : c.Shelves P) :
    Lays P E (w.cachedStaticLayers global above levels c).1 ∧
      (w.cachedStaticLayers global above levels c).2.Shelves P := by
  induction levels with
  | nil => exact ⟨habove, hc⟩
  | cons level older ih =>
    obtain ⟨holder, hkept⟩ := ih fun l hl => hlevels l (List.mem_cons_of_mem _ hl)
    have hlevel := hlevels level List.mem_cons_self
    rw [cachedStaticLayers]
    split
    · rename_i hfound
      refine ⟨.ok ?_, hc⟩
      unfold PlanCache.shared? at hfound
      split at hfound
      · exact hc _ _ hfound
      · cases hfound
    · -- What the older levels leave of the cache is what this level starts from.
      split <;> rename_i hrest <;> rw [hrest] at holder hkept
      · exact ⟨.error (holder.failure _ rfl), hkept⟩
      · split
        · rename_i hown
          exact ⟨.error (hlevel.failure _ hown), hkept⟩
        · rename_i hown
          have hboth : ∀ l ∈ _ ++ _, P l := fun l hl =>
            (List.mem_append.mp hl).elim (holder.layers _ rfl l) (hlevel.layers _ hown l)
          obtain ⟨hlayers, hkept⟩ := hkept.keepShared _ hboth
          exact ⟨.ok hlayers, hkept⟩

/-! ## 2. Plans through a cache -/

/-- A plan on static layers can only fail for the call-time traits or for the model. -/
theorem World.planOn_plain (hw : w.definitions.Plain) (global : Slot (Table DefinitionId))
    (f : DefinitionId) (dynamic : List String) (inherited : List Layer) :
    w.planOn global f dynamic inherited = (do
      let own ← w.expandAll global f .dynamicTrait (dynamic.map .text)
      if w.definitions.losesModel f then .error (Failure.raise (.noAttribute none))
      else .ok (.assemble (w.definitions.nameOf f) ((w.definitions.model? f).getD .null) dynamic
        (inherited ++ own))) := by
  unfold World.planOn
  rcases w.expandAll global f .dynamicTrait (dynamic.map .text) with e | own
  · rfl
  rcases hd : w.definitions.get? f with _ | d
  · simp only [Definitions.nameOf, hd]
    cases w.definitions.losesModel f <;> rfl
  · simp only [Definitions.nameOf, hd, writtenName_plain (hw f d hd)]
    cases w.definitions.losesModel f <;> rfl

/-- **What a factory's compilations are made of**, in any world with some definitions: what stands
above its levels, the levels, and the call-time traits give layers with one property or failures
with another. -/
structure Definitions.Provides (ds : Definitions) (P : Layer → Prop) (E : Failure → Prop)
    (global : Table DefinitionId) (f : DefinitionId) : Prop where
  foundation : Lays P E (ds.foundation (ds.lineage f))
  levels : ∀ w : World, w.definitions = ds → ∀ level ∈ ds.levels f,
    Lays P E (w.levelLayers (.own global) level)
  calls : ∀ w : World, w.definitions = ds → ∀ refs,
    Lays P E (w.expandAll (.own global) f .dynamicTrait refs)
  lost : E (Failure.raise (.noAttribute none))

namespace Definitions.Provides

variable {global : Table DefinitionId} {f : DefinitionId}

theorem mono {ds : Definitions} (h : ds.Provides P E global f) (hpq : ∀ l, P l → Q l) :
    ds.Provides Q E global f where
  foundation := h.foundation.mono hpq
  levels w hw level hl := (h.levels w hw level hl).mono hpq
  calls w hw refs := (h.calls w hw refs).mono hpq
  lost := h.lost

/-- A plan on layers that have the property. -/
theorem planOn (h : w.definitions.Provides P E global f) (hw : w.definitions.Plain)
    {inherited : List Layer} (hinherited : ∀ l ∈ inherited, P l) (dynamic : List String) :
    (∀ plan, w.planOn (.own global) f dynamic inherited = .ok plan → plan.MadeOf P) ∧
      ∀ e, w.planOn (.own global) f dynamic inherited = .error e → E e := by
  have hcalls := h.calls w rfl (dynamic.map .text)
  rw [World.planOn_plain hw]
  rcases hown : w.expandAll (.own global) f .dynamicTrait (dynamic.map .text) with e | own
  · exact ⟨fun _ hplan => (by cases hplan), fun _ he => Except.error.inj he ▸ hcalls.failure e hown⟩
  simp only [bind, Except.bind]
  split
  · exact ⟨fun _ hplan => (by cases hplan), fun _ he => Except.error.inj he ▸ h.lost⟩
  · refine ⟨fun _ hplan => ?_, fun _ he => by cases he⟩
    cases hplan
    exact ⟨⟨_, _, _, rfl⟩, fun l hl =>
      (List.mem_append.mp hl).elim (hinherited l) (hcalls.layers own hown l)⟩

end Definitions.Provides

namespace Action

variable {r : RegistryId} {reg : Registry} {f : DefinitionId}

/-- **What a compilation comes to**, given that the cache holds only layers with a property. -/
structure Laid (P : Layer → Prop) (E : Failure → Prop) (r : RegistryId) (reg : Registry)
    (w : World) (outcome : Except Failure PlanId) (c : PlanCache) (w' : World) : Prop where
  recached : World.Recached r reg c w w'
  cache : c.MadeOf P w'
  plan : ∀ p, outcome = .ok p → w'.Stores P p
  failure : ∀ e, outcome = .error e → E e

/-- What is not in the cache is compiled, and then stored and kept. -/
theorem laid_missing (hn : w.Neat r reg) (h : w.definitions.Provides P E reg.globals f) (hc : reg.cache.MadeOf P w)
    (key : PlanKey) :
    ∃ outcome c w', (compileMissing r (.own reg.globals) f key).execute w = (outcome, w') ∧
      Laid P E r reg w outcome c w' := by
  rcases hcached : w.cachedStaticLayers (.own reg.globals)
    (w.definitions.foundation (w.definitions.lineage f)) (w.definitions.levels f) reg.cache
    with ⟨inherited, c₁⟩
  obtain ⟨hinherited, hshelves⟩ := World.lays_cached h.foundation (h.levels w rfl) hc.shared
  rw [hcached] at hinherited hshelves
  obtain ⟨outcome, c₂, w₁, hexec, hplan, hrenews, hshared, hrecached⟩ :=
    execute_compileAnew hn.registry hn.plain.handedPlans hn.plain.handedLayers key.2 hcached
  -- Of the cache only what is shared has changed.
  have hc₂ : c₂.MadeOf P w₁ := by
    obtain ⟨shared, placed, rfl⟩ := hrenews.kept
    refine ⟨fun name layers hl => hshelves name layers (hshared ▸ hl), fun key p hp => ?_⟩
    exact (hc.plans key p hp).mono (fun _ hl => hl) hrecached.plans
  have houtcome : (∀ s, outcome = .ok s → s.plan.MadeOf P) ∧ ∀ e, outcome = .error e → E e := by
    rcases inherited with e | below
    · cases outcome with
      | error e' => exact ⟨fun _ hs => (by cases hs), fun _ he => by
          cases he
          cases hplan
          exact hinherited.failure e rfl⟩
      | ok s => cases hplan
    · obtain ⟨hok, herror⟩ := h.planOn hn.definitions (hinherited.layers below rfl) key.2
      have hbind : (Except.ok below).bind (w.planOn (.own reg.globals) f key.2) =
        w.planOn (.own reg.globals) f key.2 below := rfl
      rw [hbind] at hplan
      refine ⟨fun s hs => hok s.plan ?_, fun e he => herror e ?_⟩
      · rw [← hplan, hs]
        rfl
      · rw [← hplan, he]
        rfl
  rw [compileMissing]
  rcases outcome with e | stored
  · exact ⟨.error e, c₂, w₁, execute_bind_error hexec, hrecached, hc₂, fun _ hp => (by cases hp),
      fun e' he => houtcome.2 e' (by cases he; rfl)⟩
  · have hafter := (cacheAfter_renews hrenews).plain hn.plain
    obtain ⟨p, w', hstore, hstored, hp⟩ := execute_storeCompiled hrecached.registry
      hafter.handedPlans hafter.handedLayers key stored
    obtain ⟨s, hs, hsp⟩ := Option.map_eq_some_iff.mp hp
    have hnew : w'.Stores P p := ⟨s, hs, hsp ▸ houtcome.1 stored rfl⟩
    have hc' := hc₂.mono (fun _ hl => hl) hstored.plans
    refine ⟨.ok p, c₂.insertPlan key p, w', (execute_bind_ok hexec).trans hstore,
      hrecached.trans hstored, ⟨fun name layers hl => ?_, fun k q hq => ?_⟩,
      fun _ hq => Except.ok.inj hq ▸ hnew, fun _ he => by cases he⟩
    · exact hc'.shared name layers ((insertPlan_fields c₂ key p).2.2 ▸ hl)
    · -- A plan of the cache is one that was there, or the new one.
      unfold PlanCache.insertPlan at hq
      split at hq
      · rw [List.lookup_append] at hq
        rcases hold : c₂.plans.lookup k with _ | q'
        · rw [hold] at hq
          rw [Option.none_or, List.lookup_cons] at hq
          split at hq
          · cases hq
            exact hnew
          · cases hq
        · rw [hold] at hq
          cases hq
          exact hc'.plans k _ hold
      · exact hc'.plans k q hq

theorem laid_named (hn : w.Neat r reg) (h : w.definitions.Provides P E reg.globals f)
    (hc : reg.cache.MadeOf P w) (hf : reg.factory? (w.definitions.nameOf f) = some f)
    (dynamic : List String) :
    ∃ outcome c w', (compileNamed r f dynamic).execute w = (outcome, w') ∧
      Laid P E r reg w outcome c w' := by
  have hafter := cacheAfter_refresh reg
  have hrecached := World.recached_withCache hn.registry (reg.cache.refresh reg.generation)
  have hn₀ := hafter.neat hn hrecached
  -- A refreshed cache is what it was, or empty.
  have hc₀ : (reg.cache.refresh reg.generation).MadeOf P
      (w.withCache r (reg.cache.refresh reg.generation)) := by
    have hkept : reg.cache.MadeOf P (w.withCache r (reg.cache.refresh reg.generation)) :=
      hc.mono (fun _ hl => hl) hrecached.plans
    unfold PlanCache.refresh
    split
    · exact ⟨fun _ _ hl => (by cases hl), fun _ _ hp => by cases hp⟩
    · rename_i hsame
      rwa [PlanCache.refresh, if_neg hsame] at hkept
  rw [execute_compileNamed hn hf dynamic]
  rcases hfound : (reg.cache.refresh reg.generation).plan? (w.definitions.nameOf f, dynamic)
    with _ | p
  · obtain ⟨outcome, c, w', hexec, hlaid⟩ :=
      laid_missing hn₀ h hc₀ _
    exact ⟨outcome, c, w', hexec, hrecached.trans hlaid.recached, hlaid.cache, hlaid.plan,
      hlaid.failure⟩
  · have hu := (undisturbed_logged (w.withCache r (reg.cache.refresh reg.generation))
      (s!"Plan cache hit for {w.definitions.nameOf f} with traits " ++ traitsText dynamic))
    have hc' := hc₀.mono (fun _ hl => hl) fun p s hs => (hu.stored? p).trans hs
    refine ⟨.ok p, reg.cache.refresh reg.generation, _, rfl, hrecached.undisturbed hu, hc',
      fun _ hq => ?_, fun _ he => by cases he⟩
    cases hq
    unfold PlanCache.plan? at hfound
    split at hfound
    · exact hc'.plans _ p hfound
    · cases hfound

/-- **What a call of the compiler comes to**: reading its arguments fails, or all is made of what
the registry's factories provide. -/
theorem laid_compile (hn : w.Neat r reg) (hc : reg.cache.MadeOf P w)
    (h : ∀ name f, reg.factory? name = some f → w.definitions.Provides P E reg.globals f) (factory : Value)
    (traits : Option Value) :
    (∃ e w', (named reg factory traits).execute w = (.error e, w') ∧
      (compile r factory traits).execute w = (.error e, w') ∧ w.Undisturbed w') ∨
    ∃ outcome c w', (compile r factory traits).execute w = (outcome, w') ∧
      Laid P E r reg w outcome c w' := by
  rw [execute_compile hn.registry hn.plain]
  have hu := (apart_named reg factory traits).keeps w
  rcases hnamed : (named reg factory traits).execute w with ⟨e | ⟨f, dynamic⟩, w₁⟩ <;>
    rw [hnamed] at hu
  · exact .inl ⟨e, w₁, rfl, execute_bind_error hnamed, hu⟩
  · have hf := (asks_of_named hnamed).registered hn
    have hprovides := h _ f hf
    have hrecached := hu.recached hn.registry
    rw [← hu.definitions] at hf hprovides
    obtain ⟨outcome, c, w', hexec, hlaid⟩ := laid_named (hn.undisturbed hu) hprovides
      (hc.mono (fun _ hl => hl) hrecached.plans) hf dynamic
    exact .inr ⟨outcome, c, w', (execute_bind_ok hnamed).trans hexec,
      hrecached.trans hlaid.recached, hlaid.cache, hlaid.plan, hlaid.failure⟩

end Action

end TraitFactory
