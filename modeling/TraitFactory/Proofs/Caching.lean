import TraitFactory.Proofs.Outline

/-!
# What a cache holds

A cache keeps the layers that do not depend on call-time traits under the *names* of factories,
while parents are followed as the definitions that they are. So a kept list of layers may serve
every level of the name that it is kept under. That is right just when the levels of registered
factories that share a name share their layers: the registry is *coherent*. It always is when every
parent is registered itself, since then no two levels share a name.
-/

namespace TraitFactory

/-! ## 1. Registries that keep their own tables -/

/-- **A registry whose parts nobody has taken out**, and which compiles by its own cache. -/
structure Registry.Plain (reg : Registry) : Prop where
  factories : ∃ table, reg.factories = .own table
  traits : ∃ table, reg.traits = .own table
  resolver : reg.resolver = none
  source : reg.cache.registry = none
  handedPlans : reg.cache.handedPlans = none
  handedLayers : reg.cache.handedLayers = none

namespace Registry

/-- The factory that is registered under a name. -/
def factory? (reg : Registry) (name : String) : Option DefinitionId :=
  reg.factories.own?.bind (·.get? name)

/-- The global table of traits. -/
def globals (reg : Registry) : Table DefinitionId := reg.traits.own?.getD ∅

theorem Plain.factories_eq {reg : Registry} (h : reg.Plain) :
    ∃ table, reg.factories = .own table ∧ ∀ name, reg.factory? name = table.get? name := by
  obtain ⟨table, htable⟩ := h.factories
  exact ⟨table, htable, fun name => by simp [factory?, htable]⟩

theorem Plain.traits_eq {reg : Registry} (h : reg.Plain) : reg.traits = .own reg.globals := by
  obtain ⟨table, htable⟩ := h.traits
  simp [globals, htable]

theorem Plain.withFactories {reg : Registry} (h : reg.Plain) (table : Table DefinitionId) :
    { reg with factories := .own table }.Plain := { h with factories := ⟨table, rfl⟩ }

theorem Plain.withTraits {reg : Registry} (h : reg.Plain) (table : Table DefinitionId) :
    { reg with traits := .own table }.Plain := { h with traits := ⟨table, rfl⟩ }

end Registry

/-! ## 2. Levels of registered factories -/

namespace World

variable {w w' : World} {reg : Registry} {c : PlanCache} {f l m : DefinitionId}
  {layers : List Layer}

/-- **The static layers of a factory**: those of its levels, which end in one without a parent. -/
def HasStatic (w : World) (reg : Registry) (f : DefinitionId) (layers : List Layer) : Prop :=
  ∃ levels, Ancestry w.definitions f levels ∧
    w.staticLayers (.own reg.globals) (.ok []) levels = .ok layers

/-- A definition stands among the levels of a registered factory. -/
def IsLevel (w : World) (reg : Registry) (l : DefinitionId) : Prop :=
  ∃ name f, reg.factory? name = some f ∧ l ∈ w.definitions.levels f

/-- **Levels of one name have one list of static layers.** -/
def Coherent (w : World) (reg : Registry) : Prop :=
  ∀ l m layers, w.IsLevel reg l → w.IsLevel reg m →
    w.definitions.nameOf l = w.definitions.nameOf m →
    w.HasStatic reg l layers → w.HasStatic reg m layers

/-- **Every parent of a registered factory is registered** under its name, as what it is. -/
def ParentsRegistered (w : World) (reg : Registry) : Prop :=
  ∀ name f t p, reg.factory? name = some f → w.definitions.template? f = some t →
    t.parent = .definition p → reg.factory? (w.definitions.nameOf p) = some p

/-- Factories are registered under their own names. -/
def NamesKept (w : World) (reg : Registry) : Prop :=
  ∀ name f, reg.factory? name = some f →
    ∃ definition, w.definitions.get? f = some definition ∧ definition.name = name

theorem NamesKept.nameOf (h : w.NamesKept reg) {name : String}
    (hf : reg.factory? name = some f) : w.definitions.nameOf f = name := by
  obtain ⟨definition, hd, rfl⟩ := h name f hf
  simp [Definitions.nameOf, hd]

/-- A factory may be added under its own name. -/
theorem NamesKept.insert (h : w.NamesKept reg) {table : Table DefinitionId}
    (htable : ∀ name, reg.factory? name = table.get? name) {definition : Definition}
    (hd : w.definitions.get? f = some definition) :
    w.NamesKept { reg with factories := .own (table.insert definition.name f) } := by
  intro name g hg
  have hg : (table.insert definition.name f).get? name = some g := hg
  by_cases hsame : name = definition.name
  · subst hsame
    rw [Table.get?_insert_self] at hg
    exact ⟨definition, Option.some.inj hg ▸ hd, rfl⟩
  · rw [Table.get?_insert_of_ne _ _ hsame] at hg
    exact h name g ((htable name).trans hg)

theorem HasStatic.unique {layers' : List Layer} (h : w.HasStatic reg f layers)
    (h' : w.HasStatic reg f layers') : layers = layers' := by
  obtain ⟨levels, ha, hs⟩ := h
  obtain ⟨levels', ha', hs'⟩ := h'
  obtain rfl := ha.unique ha'
  exact Except.ok.inj (hs.symm.trans hs')

theorem HasStatic.grow (hw : w.definitions.Plain) (hw' : w'.definitions.Plain)
    (hg : w.definitions.GrowsTo w'.definitions) (h : w.HasStatic reg f layers) :
    w'.HasStatic reg f layers := by
  obtain ⟨levels, ha, hs⟩ := h
  exact ⟨levels, ha.grow hg, staticLayers_kept hw hw' hg.keepsRead ha hs⟩

/-- Where every parent is registered, so is every level. -/
theorem ParentsRegistered.factory? (h : w.ParentsRegistered reg) {depth : Nat} {v : Value}
    (hv : ∀ d, v = .definition d → reg.factory? (w.definitions.nameOf d) = some d)
    (hl : l ∈ (w.definitions.lineageFrom depth v).levels) :
    reg.factory? (w.definitions.nameOf l) = some l := by
  -- Registered is the factory that the search starts from, and so is each parent in turn.
  fun_induction Definitions.lineageFrom w.definitions depth v with
  | case1 => simp at hl
  | case2 depth d t ht above ih =>
    obtain rfl | hl := List.mem_cons.mp hl
    · exact hv _ rfl
    · exact ih (fun p hp => h _ d t p (hv d rfl) ht hp) hl
  | case3 depth d ht =>
    obtain rfl : l = d := by simpa using hl
    exact hv _ rfl
  | case4 => simp at hl

/-- **Registered parents make a registry coherent**: levels of one name are one level. -/
theorem ParentsRegistered.coherent (h : w.ParentsRegistered reg) (hn : w.NamesKept reg) :
    w.Coherent reg := by
  have hlevel : ∀ l, w.IsLevel reg l → reg.factory? (w.definitions.nameOf l) = some l := by
    rintro l ⟨name, f, hf, hl⟩
    refine h.factory? (fun d hd => ?_) hl
    obtain rfl := Value.definition.inj hd
    rw [hn.nameOf hf, hf]
  -- Both levels are what is registered under their name.
  intro l m layers hl hm hname hs
  have hsame := (hlevel l hl).symm.trans (hname ▸ hlevel m hm)
  exact Option.some.inj hsame ▸ hs

end World

/-! ## 3. Static layers through the cache -/

/-- **What is kept under a name are the static layers of a level of that name.** -/
def PlanCache.SharedSound (c : PlanCache) (w : World) (reg : Registry) : Prop :=
  ∀ name layers, c.shared.get? name = some layers →
    ∃ l, w.IsLevel reg l ∧ w.definitions.nameOf l = name ∧ w.HasStatic reg l layers

/-- **A cache after static layers were looked up in it**: only what is shared, and what objects the
layers are, may have changed, and nothing at all in a cache that is switched off. -/
structure PlanCache.Renews (c c' : PlanCache) : Prop where
  kept : ∃ shared placed, c' = { c with shared := shared, placed := placed }
  idle : c.enabled = false → c' = c

namespace PlanCache.Renews

variable {c c' c'' : PlanCache}

theorem refl (c : PlanCache) : Renews c c := ⟨⟨c.shared, c.placed, rfl⟩, fun _ => rfl⟩

theorem enabled (h : Renews c c') : c'.enabled = c.enabled := by
  obtain ⟨shared, placed, rfl⟩ := h.kept
  rfl

theorem trans (h : Renews c c') (h' : Renews c' c'') : Renews c c'' := by
  obtain ⟨shared', placed', rfl⟩ := h'.kept
  obtain ⟨shared, placed, rfl⟩ := h.kept
  exact ⟨⟨shared', placed', rfl⟩, fun hidle => (h'.idle hidle).trans (h.idle hidle)⟩

theorem keepShared (c : PlanCache) (name : String) (layers : List Layer) :
    Renews c (c.keepShared name layers).2 := by
  unfold PlanCache.keepShared
  split
  · rename_i henabled
    split
    · exact refl c
    · exact ⟨⟨c.shared.insert name layers, c.placed, rfl⟩, by simp [henabled]⟩
  · exact refl c

end PlanCache.Renews

theorem World.cachedStaticLayers_renews (w : World) (traits : Slot (Table DefinitionId))
    (above : Except Failure (List Layer)) (levels : List DefinitionId) (c : PlanCache) :
    PlanCache.Renews c (w.cachedStaticLayers traits above levels c).2 := by
  induction levels with
  | nil => exact .refl c
  | cons level older ih =>
    rw [cachedStaticLayers]
    split
    · exact .refl c
    · split
      · rename_i hrest
        rwa [hrest] at ih
      · rename_i hrest
        rw [hrest] at ih
        split
        · exact ih
        · exact ih.trans (.keepShared _ _ _)

/-- **More may be shared than before, and all that is shared is right.** -/
structure PlanCache.Shares (w : World) (reg : Registry) (c c' : PlanCache) : Prop extends
    PlanCache.Renews c c' where
  sound : c.SharedSound w reg → c'.SharedSound w reg

namespace PlanCache.Shares

variable {w : World} {reg : Registry} {c c' c'' : PlanCache}

theorem refl (c : PlanCache) : Shares w reg c c := ⟨.refl c, id⟩

theorem trans (h : Shares w reg c c') (h' : Shares w reg c' c'') : Shares w reg c c'' :=
  ⟨h.toRenews.trans h'.toRenews, h'.sound ∘ h.sound⟩

theorem sound_of_enabled (h : Shares w reg c c') (hs : c.enabled = true → c.SharedSound w reg)
    (h' : c'.enabled = true) : c'.SharedSound w reg :=
  h.sound (hs (h.enabled ▸ h'))

end PlanCache.Shares

namespace World

variable {w : World} {reg : Registry} {c c' : PlanCache} {f level : DefinitionId}
  {older levels : List DefinitionId} {layers : List Layer}

/-- What is found under the name of a level is right for the level. -/
theorem Coherent.hit (hco : w.Coherent reg) (hl : w.IsLevel reg level)
    (hs : c.enabled = true → c.SharedSound w reg)
    (h : c.shared? (w.definitions.nameOf level) = some layers) :
    c.enabled = true ∧ w.HasStatic reg level layers := by
  unfold PlanCache.shared? at h
  split at h
  · rename_i henabled
    obtain ⟨m, hm, hname, hstatic⟩ := hs henabled _ _ h
    exact ⟨henabled, hco m level layers hm hl hname hstatic⟩
  · cases h

theorem HasStatic.layers_eq {above : List DefinitionId} (h : w.HasStatic reg f layers)
    (ha : Ancestry w.definitions f above) :
    w.staticLayers (.own reg.globals) (.ok []) above = .ok layers := by
  obtain ⟨levels, ha', hs⟩ := h
  rwa [ha.unique ha']

/-- Storing the static layers of a level under its name: what the name then stands for is right
for the level, even when an older level of that name has stored its layers first. -/
theorem Coherent.keepShared (hco : w.Coherent reg) (hl : w.IsLevel reg level)
    (hs : c.enabled = true → c.SharedSound w reg) (hstatic : w.HasStatic reg level layers) :
    ∃ c', c.keepShared (w.definitions.nameOf level) layers = (layers, c') ∧
      PlanCache.Shares w reg c c' := by
  by_cases henabled : c.enabled = true
  -- Layers kept before are the level's own, since its namesakes share theirs.
  · rcases hkept : c.shared.get? (w.definitions.nameOf level) with _ | kept
    · refine ⟨{ c with shared := c.shared.insert (w.definitions.nameOf level) layers },
        by rw [PlanCache.keepShared, if_pos henabled, hkept],
        ⟨⟨_, _, rfl⟩, by simp [henabled]⟩, fun hsound name ls h => ?_⟩
      by_cases hname : name = w.definitions.nameOf level
      · subst hname
        simp only [Table.get?_insert_self] at h
        exact ⟨level, hl, rfl, Option.some.inj h ▸ hstatic⟩
      · rw [Table.get?_insert_of_ne _ _ hname] at h
        exact hsound name ls h
    · obtain ⟨m, hm, hname, hm'⟩ := hs henabled _ _ hkept
      obtain rfl := (hco m level kept hm hl hname hm').unique hstatic
      exact ⟨c, by rw [PlanCache.keepShared, if_pos henabled, hkept], .refl c⟩
  · exact ⟨c, by simp [PlanCache.keepShared, henabled], .refl c⟩

/-- One level through the cache, given that the older levels come out right. -/
theorem Coherent.cached_cons (hco : w.Coherent reg) (hl : w.IsLevel reg level)
    (ha : Ancestry w.definitions level (level :: older))
    (hs : c.enabled = true → c.SharedSound w reg)
    (holder : w.cachedStaticLayers (.own reg.globals) (.ok []) older c =
      (w.staticLayers (.own reg.globals) (.ok []) older, c'))
    (hshares : PlanCache.Shares w reg c c') :
    ∃ c'', w.cachedStaticLayers (.own reg.globals) (.ok []) (level :: older) c =
        (w.staticLayers (.own reg.globals) (.ok []) (level :: older), c'') ∧
      PlanCache.Shares w reg c c'' := by
  -- A miss goes on to the older levels and may end in a failure; a hit ends the search.
  rcases hhit : c.shared? (w.definitions.nameOf level) with _ | layers
  · rcases hinherited : w.staticLayers (.own reg.globals) (.ok []) older with e | inherited
    · refine ⟨c', ?_, hshares⟩
      simp only [cachedStaticLayers, hhit, holder, hinherited, staticLayers]
      rfl
    · rcases hown : w.levelLayers (.own reg.globals) level with e | own
      · refine ⟨c', ?_, hshares⟩
        simp only [cachedStaticLayers, hhit, holder, hinherited, hown, staticLayers]
        rfl
      · have hstatic : w.staticLayers (.own reg.globals) (.ok []) (level :: older) =
            .ok (inherited ++ own) :=
          staticLayers_cons_eq_ok_iff.mpr ⟨inherited, own, hinherited, hown, rfl⟩
        obtain ⟨c'', hkeep, hshares'⟩ := hco.keepShared hl (hshares.sound_of_enabled hs)
          ⟨_, ha, hstatic⟩
        refine ⟨c'', ?_, hshares.trans hshares'⟩
        simp only [cachedStaticLayers, hhit, holder, hinherited, hown, hkeep, hstatic]
  · obtain ⟨_, hstatic⟩ := hco.hit hl hs hhit
    refine ⟨c, ?_, .refl c⟩
    simp only [cachedStaticLayers, hhit, hstatic.layers_eq ha]

/-- **Levels through the cache** come out as they are. -/
theorem Coherent.cached_of_ancestry (hco : w.Coherent reg)
    (ha : Ancestry w.definitions f levels) (hl : ∀ l ∈ levels, w.IsLevel reg l)
    (hs : c.enabled = true → c.SharedSound w reg) :
    ∃ c', w.cachedStaticLayers (.own reg.globals) (.ok []) levels c =
        (w.staticLayers (.own reg.globals) (.ok []) levels, c') ∧
      PlanCache.Shares w reg c c' := by
  -- One level after another, from the oldest on.
  induction ha with
  | oldest ht hp =>
    exact hco.cached_cons (hl _ (by simp)) (.oldest ht hp) hs rfl
      (.refl c)
  | child ht hp ha ih =>
    obtain ⟨c', holder, hshares⟩ := ih fun l hm => hl l (by simp [hm])
    exact hco.cached_cons (hl _ (by simp)) (.child ht hp ha) hs holder hshares

/-- Levels that lead to no oldest one are kept nowhere, so the cache is of no use to them. -/
theorem Coherent.cached_of_open (hco : w.Coherent reg) {e : Failure}
    (hl : ∀ l ∈ levels, w.IsLevel reg l ∧ ∀ older, ¬ Ancestry w.definitions l older)
    (hs : c.enabled = true → c.SharedSound w reg) :
    w.cachedStaticLayers (.own reg.globals) (.error e) levels c = (.error e, c) := by
  induction levels with
  | nil => rfl
  | cons level older ih =>
    obtain ⟨hlevel, hnone⟩ := hl level (by simp)
    rcases hhit : c.shared? (w.definitions.nameOf level) with _ | layers
    · simp only [cachedStaticLayers, hhit, ih fun l hm => hl l (by simp [hm])]
    · obtain ⟨_, levels, ha, _⟩ := hco.hit hlevel hs hhit
      exact absurd ha (hnone levels)

/-- No level of a lineage that is open has an ancestry. -/
theorem not_ancestry_of_open (hopen : (w.definitions.lineage f).closed ≠ true)
    (hl : level ∈ w.definitions.levels f) (older : List DefinitionId) :
    ¬ Ancestry w.definitions level older := by
  intro ha
  obtain ⟨d, levels, hd, ha⟩ := Definitions.ancestry_of_mem hl ha
  obtain rfl := Value.definition.inj hd
  rw [Definitions.lineage_eq_iff.mpr ha] at hopen
  exact hopen rfl

/-- **In a coherent registry the cache changes nothing** of what the levels of a registered
factory come to, from whichever level on, be it layers or a failure; and all that is stored on the
way is right. -/
theorem Coherent.cachedStaticLayers_eq (hco : w.Coherent reg) {name : String}
    (hf : reg.factory? name = some f) (hlevels : levels <:+ w.definitions.levels f)
    (hs : c.enabled = true → c.SharedSound w reg) :
    ∃ c', w.cachedStaticLayers (.own reg.globals)
        (w.definitions.foundation (w.definitions.lineage f)) levels c =
        (w.staticLayers (.own reg.globals)
          (w.definitions.foundation (w.definitions.lineage f)) levels, c') ∧
      PlanCache.Shares w reg c c' := by
  -- An open lineage fails at its far end, and nothing is kept for any of its levels.
  have hlevel : ∀ l ∈ levels, w.IsLevel reg l := fun l hl => ⟨name, f, hf, hlevels.subset hl⟩
  unfold Definitions.foundation
  by_cases hclosed : (w.definitions.lineage f).closed = true
  · rw [if_pos hclosed]
    cases levels with
    | nil => exact ⟨c, rfl, .refl c⟩
    | cons l older =>
      obtain ⟨nearer, hnearer⟩ := hlevels
      exact hco.cached_of_ancestry
        ((Definitions.ancestry_lineage hclosed).suffix hnearer.symm) hlevel hs
  · rw [if_neg hclosed, staticLayers_error]
    have hopen := fun l hl => not_ancestry_of_open hclosed (hlevels.subset (a := l) hl)
    exact ⟨c, hco.cached_of_open (fun l hl => ⟨hlevel l hl, hopen l hl⟩) hs, .refl c⟩

end World

/-! ## 4. What an empty cache is filled with -/

namespace World

variable {w : World} {traits : Slot (Table DefinitionId)} {c : PlanCache} {m : DefinitionId}
  {nearer older levels : List DefinitionId}

/-- A name that something is shared under keeps it. -/
theorem shared_keepShared (name : String) (layers : List Layer) {key : String}
    (h : (c.shared.get? key).isSome) : ((c.keepShared name layers).2.shared.get? key).isSome := by
  unfold PlanCache.keepShared
  split
  · split
    · exact h
    · by_cases hkey : key = name
      · simp [hkey]
      · rwa [Table.get?_insert_of_ne _ _ hkey]
  · exact h

/-- Levels each of which has its layers come to something, whatever the cache holds. -/
theorem cached_ok (h : ∀ l ∈ levels, ∃ own, w.levelLayers traits l = .ok own) :
    ∃ layers c', w.cachedStaticLayers traits (.ok []) levels c = (.ok layers, c') := by
  induction levels with
  | nil => exact ⟨[], c, rfl⟩
  | cons level older ih =>
    obtain ⟨inherited, c₁, hrest⟩ := ih fun l hl => h l (by simp [hl])
    obtain ⟨own, hown⟩ := h level (by simp)
    rcases hhit : c.shared? (w.definitions.nameOf level) with _ | layers
    · simp only [cachedStaticLayers, hhit, hrest, hown]
      exact ⟨_, _, rfl⟩
    · exact ⟨layers, c, by simp only [cachedStaticLayers, hhit]⟩

theorem levelLayers_of_staticLayers {layers : List Layer}
    (h : w.staticLayers traits (.ok []) levels = .ok layers) :
    ∀ l ∈ levels, ∃ own, w.levelLayers traits l = .ok own := by
  induction levels generalizing layers with
  | nil => simp
  | cons level older ih =>
    obtain ⟨inherited, own, hinherited, hown, rfl⟩ := staticLayers_cons_eq_ok_iff.mp h
    simpa using ⟨⟨own, hown⟩, ih hinherited⟩

/-- **From an empty cache every level with static layers leaves something under its name.** The
search goes down to the oldest level, since nothing is found before. -/
theorem cached_fills (henabled : c.enabled = true) (hempty : c.shared = ∅)
    (h : ∀ l ∈ m :: older, ∃ own, w.levelLayers traits l = .ok own) :
    ((w.cachedStaticLayers traits (.ok []) (nearer ++ m :: older) c).2.shared.get?
      (w.definitions.nameOf m)).isSome := by
  -- Nothing is found in an empty cache, however far down the search goes.
  have hmiss : ∀ name, c.shared? name = none := fun name => by
    rw [PlanCache.shared?, if_pos henabled, hempty]
    rfl
  induction nearer with
  | nil =>
    -- At the level itself: the older ones come to something, so the level is stored.
    obtain ⟨inherited, c₁, hrest⟩ := cached_ok (c := c) fun l hl =>
      h l (List.mem_cons_of_mem m hl)
    obtain ⟨own, hown⟩ := h m (by simp)
    have hrenews := w.cachedStaticLayers_renews traits (.ok []) older c
    rw [hrest] at hrenews
    have henabled₁ : c₁.enabled = true := hrenews.enabled.trans henabled
    simp only [List.nil_append, cachedStaticLayers, hmiss, hrest, hown]
    rw [PlanCache.keepShared, if_pos henabled₁]
    split
    · rename_i kept hkept
      rw [hkept]
      rfl
    · rw [Table.get?_insert_self]
      rfl
  | cons n nearer ih =>
    rw [List.cons_append, cachedStaticLayers, hmiss]
    dsimp only
    split
    · rename_i hrest
      rwa [hrest] at ih
    · rename_i hrest
      rw [hrest] at ih
      split
      · exact ih
      · exact shared_keepShared _ _ ih

end World

/-! ## 5. Sound caches -/

/-- **A sound cache**: under the names of factories it keeps their static layers, and under a
factory's name and call-time traits the plan that they are compiled to. -/
structure PlanCache.Sound (c : PlanCache) (w : World) (reg : Registry) : Prop where
  shared : c.SharedSound w reg
  plans : ∀ key p, c.plans.lookup key = some p →
    ∃ f plan, reg.factory? key.1 = some f ∧
      w.compile (.own reg.globals) f key.2 = .ok plan ∧ w.plan? p = some plan

/-- A world of which all that a cache is about is still there in another one: its definitions and
its plans. -/
structure World.Extends (w' w : World) : Prop where
  definitions : w.definitions.GrowsTo w'.definitions
  plans : ∀ p s, w.stored? p = some s → w'.stored? p = some s

namespace World

variable {w w' : World} {reg reg' : Registry} {c c' : PlanCache} {l : DefinitionId}
  {layers : List Layer}

theorem Extends.refl (w : World) : w.Extends w := ⟨.refl _, fun _ _ h => h⟩

theorem Extends.trans {w₁ w₂ w₃ : World} (h : w₂.Extends w₁) (h' : w₃.Extends w₂) :
    w₃.Extends w₁ :=
  ⟨h.definitions.trans h'.definitions, fun p s hs => h'.plans p s (h.plans p s hs)⟩

theorem Extends.plan? (h : w'.Extends w) {p : PlanId} {plan : Plan} (hp : w.plan? p = some plan) :
    w'.plan? p = some plan := by
  obtain ⟨s, hs, rfl⟩ := Option.map_eq_some_iff.mp hp
  exact Option.map_eq_some_iff.mpr ⟨s, h.plans p s hs, rfl⟩

/-- The same names are registered, locally and globally. -/
def SameTables (reg reg' : Registry) : Prop :=
  reg'.factories = reg.factories ∧ reg'.traits = reg.traits

/-- Its cache has nothing to do with the tables of a registry. -/
theorem sameTables_cache (reg : Registry) (c : PlanCache) :
    SameTables reg { reg with cache := c } := ⟨rfl, rfl⟩

theorem SameTables.refl (reg : Registry) : SameTables reg reg := ⟨rfl, rfl⟩

theorem SameTables.symm (h : SameTables reg reg') : SameTables reg' reg := ⟨h.1.symm, h.2.symm⟩

theorem SameTables.factory? (h : SameTables reg reg') (name : String) :
    reg'.factory? name = reg.factory? name := by rw [Registry.factory?, Registry.factory?, h.1]

theorem SameTables.globals (h : SameTables reg reg') : reg'.globals = reg.globals := by
  rw [Registry.globals, Registry.globals, h.2]

theorem HasStatic.extend (hw : w.definitions.Plain) (hw' : w'.definitions.Plain)
    (hx : w'.Extends w) (ht : SameTables reg reg') (h : w.HasStatic reg l layers) :
    w'.HasStatic reg' l layers := by
  obtain ⟨levels, ha, hs⟩ := h.grow hw hw' hx.definitions
  exact ⟨levels, ha, by rwa [ht.globals]⟩

/-- A level with static layers stays a level of the same factories. -/
theorem IsLevel.extend (hx : w'.Extends w) (ht : SameTables reg reg') (h : w.IsLevel reg l)
    (hs : w.HasStatic reg l layers) : w'.IsLevel reg' l := by
  obtain ⟨name, f, hf, hl⟩ := h
  obtain ⟨older, ha, _⟩ := hs
  -- The factory comes upon a level with an ancestry, so its own levels stay what they are.
  obtain ⟨d, levels, hd, haf⟩ := Definitions.ancestry_of_mem hl ha
  obtain rfl := Value.definition.inj hd
  rw [Definitions.levels_of_ancestry haf] at hl
  refine ⟨name, f, by rw [ht.factory?, hf], ?_⟩
  rwa [Definitions.levels_of_ancestry (haf.grow hx.definitions)]

theorem SharedSound.extend (hw : w.definitions.Plain) (hw' : w'.definitions.Plain)
    (hx : w'.Extends w) (ht : SameTables reg reg') (h : c.SharedSound w reg) :
    c.SharedSound w' reg' := by
  intro name layers hget
  -- The level that the layers belong to is still a level, of the same name.
  obtain ⟨l, hl, rfl, hs⟩ := h name layers hget
  have ⟨_, ha, _⟩ := hs
  obtain ⟨t, htemplate⟩ := ha.template?_self
  exact ⟨l, hl.extend hx ht hs, Definitions.nameOf_grow hx.definitions htemplate,
    hs.extend hw hw' hx ht⟩

/-- **A sound cache stays sound while definitions and plans are only added.** -/
theorem Sound.extend (hw : w.definitions.Plain) (hw' : w'.definitions.Plain)
    (hx : w'.Extends w) (ht : SameTables reg reg') (h : c.Sound w reg) : c.Sound w' reg' := by
  refine ⟨SharedSound.extend hw hw' hx ht h.shared, fun key p hp => ?_⟩
  obtain ⟨f, plan, hf, hplan, hstored⟩ := h.plans key p hp
  refine ⟨f, plan, by rw [ht.factory?, hf], ?_, hx.plan? hstored⟩
  rw [ht.globals]
  exact compile_kept hw hw' hx.definitions.keepsRead hplan

/-- An empty cache is sound. -/
theorem sound_of_empty (hshared : c.shared = ∅) (hplans : c.plans = []) : c.Sound w reg := by
  refine ⟨fun name layers h => ?_, fun key p h => ?_⟩
  · rw [hshared] at h
    cases h
  · rw [hplans] at h
    cases h

/-- Whether a registry is coherent is a matter of definitions and tables alone. -/
theorem Coherent.congr (hw : w.definitions.Plain) (hs : w'.definitions = w.definitions)
    (ht : SameTables reg reg') (h : w.Coherent reg) : w'.Coherent reg' := by
  -- All that coherence speaks of are definitions and tables.
  have hstatic : ∀ l layers, w'.HasStatic reg' l layers ↔ w.HasStatic reg l layers := by
    intro l layers
    unfold HasStatic
    rw [hs, ht.globals]
    exact exists_congr fun levels => and_congr_right fun ha => by rw [staticLayers_congr hw hs ha]
  have hlevel : ∀ l, w'.IsLevel reg' l ↔ w.IsLevel reg l := by
    intro l
    simp only [IsLevel, hs, ht.factory?]
  intro l m layers hl hm hname hl'
  rw [hs] at hname
  exact (hstatic m layers).mpr
    (h l m layers ((hlevel l).mp hl) ((hlevel m).mp hm) hname ((hstatic l layers).mp hl'))

end World

namespace PlanCache

variable {w : World} {reg : Registry} {c : PlanCache}

/-- A plan that is stored where none was kept is found there, and others stay what they were. -/
theorem lookup_insertPlan {key : PlanKey} (hc : c.enabled = true)
    (hnone : c.plans.lookup key = none) (p : PlanId) (k : PlanKey) :
    (c.insertPlan key p).plans.lookup k = if k = key then some p else c.plans.lookup k := by
  rw [insertPlan, if_pos hc, List.lookup_append]
  by_cases hk : k = key
  · subst hk
    simp [hnone]
  · have hk' : (k == key) = false := by simpa using hk
    rw [if_neg hk, List.lookup_cons, hk']
    exact Option.or_none

/-- **A cache stays sound when a compiled plan is stored in it.** -/
theorem Sound.insertPlan (h : c.Sound w reg) {f : DefinitionId} {key : PlanKey} {p : PlanId}
    {plan : Plan} (hnone : c.plan? key = none) (hf : reg.factory? key.1 = some f)
    (hplan : w.compile (.own reg.globals) f key.2 = .ok plan) (hp : w.plan? p = some plan) :
    (c.insertPlan key p).Sound w reg := by
  -- A cache that is off stores nothing.
  by_cases hc : c.enabled = true
  · rw [plan?, if_pos hc] at hnone
    refine ⟨?_, fun k q hq => ?_⟩
    · have hshared : (c.insertPlan key p).shared = c.shared := by
        rw [PlanCache.insertPlan, if_pos hc]
      unfold SharedSound
      rw [hshared]
      exact h.shared
    · rw [lookup_insertPlan hc hnone] at hq
      split at hq
      · obtain rfl := Option.some.inj hq
        rename_i hk
        exact ⟨f, plan, by rw [hk, hf], by rw [hk, hplan], hp⟩
      · exact h.plans k q hq
  · rw [PlanCache.insertPlan, if_neg hc]
    exact h

end PlanCache

end TraitFactory
