import TraitFactory.Proofs.Stack

/-!
# Outlines of compiled factories

What a factory and its call-time traits are compiled from: its levels, each with the trees that
the traits it applies include, and the trees of the call-time traits. `Outline.layers` lists the
layers from the oldest level to the last call-time trait, and `Outline.search` looks for a name the
other way round, from the top. Compilation without a cache gives a plan just when there is an
outline whose hooks can be called, and the plan's layers are the outline's.
-/

namespace TraitFactory

/-! ## 1. Outlines -/

/-- **One level of a factory** with the trees of the traits that it applies. -/
structure Level where
  factory : DefinitionId
  includes : List Inclusion

namespace Level

/-- The trees are those of the level's own references, looked up from the level itself. -/
def Of (ds : Definitions) (global : Table DefinitionId) (l : Level) : Prop :=
  ∃ definition, ds.get? l.factory = some definition ∧
    Inclusion.AllOf ds global l.factory l.includes definition.applied

/-- The layers of a level: those of its traits, then its own. -/
def layers (ds : Definitions) (l : Level) : List Layer :=
  ds.layersOf .trait (some (ds.nameOf l.factory)) (Inclusion.traitsOfAll l.includes)
    ++ ds.layersOf .factory none [l.factory]

/-- What a level has: its own, else what the last trait that supplies anything does. -/
def search {α : Type} (own : DefinitionId → Option α) (l : Level) : Option α :=
  (own l.factory).or (Inclusion.findLast? own l.includes)

theorem Of.unique {ds : Definitions} {global : Table DefinitionId} {l l' : Level}
    (h : l.Of ds global) (h' : l'.Of ds global) (hf : l.factory = l'.factory) : l = l' := by
  obtain ⟨definition, hd, hincludes⟩ := h
  obtain ⟨definition', hd', hincludes'⟩ := h'
  rw [← hf] at hd' hincludes'
  obtain rfl := Option.some.inj (hd.symm.trans hd')
  cases l
  cases l'
  exact congr (congrArg Level.mk hf) (hincludes.unique hincludes')

end Level

/-- **What a factory is compiled from**: its levels, nearest first, and the trees of the call-time
traits in call order. -/
structure Outline where
  factory : DefinitionId
  levels : List Level
  dynamic : List Inclusion

namespace Outline

/-- **The outline of a factory with call-time traits.** The levels are those from the factory up
through its parents; call-time traits are looked up from the factory. -/
structure Of (ds : Definitions) (global : Table DefinitionId) (f : DefinitionId)
    (traits : List String) (o : Outline) : Prop where
  factory : o.factory = f
  ancestry : Ancestry ds f (o.levels.map (·.factory))
  levels : ∀ l ∈ o.levels, l.Of ds global
  dynamic : Inclusion.AllOf ds global f o.dynamic traits

/-- **The stack**: the levels from the oldest to the factory itself, then the call-time traits. -/
def layers (ds : Definitions) (o : Outline) : List Layer :=
  o.levels.reverse.flatMap (Level.layers ds)
    ++ ds.layersOf .dynamicTrait (some (ds.nameOf o.factory)) (Inclusion.traitsOfAll o.dynamic)

/-- **The search from the top**: what the last call-time trait that supplies anything does, else
what the first level does that has anything, from the factory up through its parents. -/
def search {α : Type} (own : DefinitionId → Option α) (o : Outline) : Option α :=
  (Inclusion.findLast? own o.dynamic).or (o.levels.findSome? (Level.search own))

/-- A factory has one outline with given call-time traits. -/
theorem Of.unique {ds : Definitions} {global : Table DefinitionId} {factory : DefinitionId}
    {traits : List String} {o o' : Outline} (h : Of ds global factory traits o)
    (h' : Of ds global factory traits o') : o = o' := by
  obtain ⟨f, levels, dynamic⟩ := o
  obtain ⟨f', levels', dynamic'⟩ := o'
  have hlevels : levels = levels' := by
    have hmap : levels.map (·.factory) = levels'.map (·.factory) := h.ancestry.unique h'.ancestry
    have hof := h.levels
    have hof' := h'.levels
    clear h h'
    induction levels generalizing levels' with
    | nil => exact (List.map_eq_nil_iff.mp hmap.symm).symm
    | cons l ls ih =>
      obtain ⟨l', ls', rfl, hl, hls⟩ := List.map_eq_cons_iff.mp hmap.symm
      rw [(hof l (by simp)).unique (hof' l' (by simp)) hl.symm,
        ih ls' hls.symm (fun x hx => hof x (by simp [hx])) fun x hx => hof' x (by simp [hx])]
  have hfactory : f = f' := h.factory.trans h'.factory.symm
  have hdynamic : dynamic = dynamic' := h.dynamic.unique h'.dynamic
  rw [hfactory, hlevels, hdynamic]

end Outline

/-! ## 2. The layers of the levels -/

/-- The model of a factory stays what it is while its levels stay. -/
theorem Definitions.KeepsRead.model? {ds ds' : Definitions} {global : Table DefinitionId}
    {f : DefinitionId} {levels : List DefinitionId} (hk : ds.KeepsRead ds' global levels)
    (ha : Ancestry ds f levels) : ds'.model? f = ds.model? f := by
  have hlevel : ∀ level ∈ levels, ds'.template? level = ds.template? level := by
    intro level hl
    obtain ⟨t, ht⟩ := ha.template?_isSome hl
    rw [ht, hk.template? hl ht]
  unfold Definitions.model?
  rw [levels_of_ancestry ha, levels_of_ancestry (hk.ancestry ha), ← List.head?_filterMap,
    ← List.head?_filterMap, List.filterMap_congr fun level hl => by rw [hlevel level hl]]

namespace World

variable {w w' : World} {global : Table DefinitionId} {factory : DefinitionId}
  {levels : List DefinitionId} {layers : List Layer}

theorem staticLayers_cons_eq_ok_iff {above : Except Failure (List Layer)}
    {traits : Slot (Table DefinitionId)} {level : DefinitionId} {older : List DefinitionId} :
    w.staticLayers traits above (level :: older) = .ok layers ↔
      ∃ inherited own, w.staticLayers traits above older = .ok inherited ∧
        w.levelLayers traits level = .ok own ∧ layers = inherited ++ own := by
  rw [staticLayers, bind_eq_ok_iff]
  simp only [bind_eq_ok_iff, pure, Except.pure, Except.ok.injEq, eq_comm (a := layers),
    exists_and_left]

/-- Levels on top of nothing: each contributes its layers when it has an ancestry. -/
theorem staticLayers_kept (hw : w.definitions.Plain) (hw' : w'.definitions.Plain)
    (hk : w.definitions.KeepsRead w'.definitions global levels)
    (ha : Ancestry w.definitions factory levels)
    (h : w.staticLayers (.own global) (.ok []) levels = .ok layers) :
    w'.staticLayers (.own global) (.ok []) levels = .ok layers := by
  induction ha generalizing layers with
  | oldest ht hp =>
    obtain ⟨inherited, own, hinherited, hown, rfl⟩ := staticLayers_cons_eq_ok_iff.mp h
    exact staticLayers_cons_eq_ok_iff.mpr
      ⟨inherited, own, hinherited, levelLayers_kept hw hw' hk (.oldest ht hp) hown, rfl⟩
  | child ht hp ha ih =>
    obtain ⟨inherited, own, hinherited, hown, rfl⟩ := staticLayers_cons_eq_ok_iff.mp h
    exact staticLayers_cons_eq_ok_iff.mpr
      ⟨inherited, own, ih (hk.of_subset (List.subset_cons_self _ _)) hinherited,
        levelLayers_kept hw hw' hk (.child ht hp ha) hown, rfl⟩

/-- One level on top of older ones. -/
theorem exists_level (hw : w.definitions.Plain) (ha : Ancestry w.definitions factory levels)
    (h : w.levelLayers (.own global) factory = .ok layers) :
    ∃ l : Level, l.factory = factory ∧ l.Of w.definitions global ∧
      layers = l.layers w.definitions := by
  obtain ⟨definition, traits, hd, htraits, _, rfl⟩ := (levelLayers_eq_ok_iff hw ha).mp h
  obtain ⟨is, his, rfl⟩ := exists_inclusions_of_expandAll hw ha htraits
  refine ⟨⟨factory, is⟩, rfl, ⟨definition, hd, his⟩, ?_⟩
  simp [Level.layers, Definitions.layersOf, hd]

theorem exists_levels (hw : w.definitions.Plain) (ha : Ancestry w.definitions factory levels)
    (h : w.staticLayers (.own global) (.ok []) levels = .ok layers) :
    ∃ ls : List Level, ls.map (·.factory) = levels ∧ (∀ l ∈ ls, l.Of w.definitions global) ∧
      layers = ls.reverse.flatMap (Level.layers w.definitions) := by
  induction ha generalizing layers with
  | oldest ht hp =>
    obtain ⟨inherited, own, hinherited, hown, rfl⟩ := staticLayers_cons_eq_ok_iff.mp h
    obtain ⟨l, rfl, hl, rfl⟩ := exists_level hw (.oldest ht hp) hown
    obtain rfl : [] = inherited := Except.ok.inj hinherited
    exact ⟨[l], rfl, by simpa using hl, by simp⟩
  | child ht hp ha ih =>
    obtain ⟨inherited, own, hinherited, hown, rfl⟩ := staticLayers_cons_eq_ok_iff.mp h
    obtain ⟨l, rfl, hl, rfl⟩ := exists_level hw (.child ht hp ha) hown
    obtain ⟨ls, rfl, hls, rfl⟩ := ih hinherited
    exact ⟨l :: ls, rfl, by simpa using ⟨hl, hls⟩, by simp⟩

/-! ## 3. Plans -/

/-- On something that fails no levels can stand. -/
theorem staticLayers_error {traits : Slot (Table DefinitionId)} {e : Failure} :
    w.staticLayers traits (.error e) levels = .error e := by
  induction levels with
  | nil => rfl
  | cons level older ih =>
    rw [staticLayers, ih]
    rfl

/-- Levels stand on nothing at all just when the factory has an ancestry. -/
theorem staticLayers_foundation {traits : Slot (Table DefinitionId)}
    (h : w.staticLayers traits (w.definitions.foundation (w.definitions.lineage factory))
      (w.definitions.levels factory) = .ok layers) :
    Ancestry w.definitions factory (w.definitions.levels factory) ∧
      w.staticLayers traits (.ok []) (w.definitions.levels factory) = .ok layers := by
  unfold Definitions.foundation at h
  split at h
  · exact ⟨Definitions.ancestry_lineage ‹_›, h⟩
  · rw [staticLayers_error] at h
    cases h

variable {names : List String} {plan : Plan}

theorem staticLayers_congr (hw : w.definitions.Plain) (hs : w'.definitions = w.definitions)
    (ha : Ancestry w.definitions factory levels) :
    w'.staticLayers (.own global) (.ok []) levels =
      w.staticLayers (.own global) (.ok []) levels := by
  induction ha with
  | oldest ht hp =>
    simp only [staticLayers, levelLayers_congr hw hs (.oldest ht hp)]
  | child ht hp ha ih =>
    simp only [staticLayers, ih, levelLayers_congr hw hs (.child ht hp ha)]

/-- The plan that layers make, which takes no more than its call-time traits to be expanded. -/
theorem planOn_eq_ok_iff (hw : w.definitions.Plain) (ha : Ancestry w.definitions factory levels)
    {inherited : List Layer} :
    w.planOn (.own global) factory names inherited = .ok plan ↔
      ∃ dynamic, w.expandAll (.own global) factory .dynamicTrait (names.map .text) = .ok dynamic ∧
        plan = Plan.assemble (w.definitions.nameOf factory)
          ((w.definitions.model? factory).getD .null) names (inherited ++ dynamic) := by
  -- Neither the model nor the name of a factory with an ancestry can fail.
  obtain ⟨t, ht⟩ := ha.template?_self
  obtain ⟨definition, hd, _⟩ := Definitions.get?_of_template? ht
  have hmodel : w.definitions.losesModel factory = false := by
    simp [Definitions.losesModel, Definitions.hasLineage, Definitions.lineage_eq_iff.mpr ha]
  have hname : w.definitions.nameOf factory = definition.name := by
    simp [Definitions.nameOf, hd]
  simp only [planOn, bind_eq_ok_iff, hmodel, Bool.false_eq_true, if_false, hd,
    writtenName_plain (hw factory definition hd), Except.ok.injEq, exists_eq_left', pure,
    Except.pure, hname, eq_comm (a := plan)]

/-- **Compilation without a cache**: the levels are stacked, the call-time traits come on top, and
nothing else can fail. -/
theorem compile_eq_ok_iff (hw : w.definitions.Plain) :
    w.compile (.own global) factory names = .ok plan ↔
      ∃ levels inherited dynamic, Ancestry w.definitions factory levels ∧
        w.staticLayers (.own global) (.ok []) levels = .ok inherited ∧
        w.expandAll (.own global) factory .dynamicTrait (names.map .text) = .ok dynamic ∧
        plan = Plan.assemble (w.definitions.nameOf factory)
          ((w.definitions.model? factory).getD .null) names (inherited ++ dynamic) := by
  rw [compile, bind_eq_ok_iff]
  constructor
  · rintro ⟨inherited, hinherited, hplan⟩
    obtain ⟨ha, hinherited⟩ := staticLayers_foundation hinherited
    obtain ⟨dynamic, hdynamic, rfl⟩ := (planOn_eq_ok_iff hw ha).mp hplan
    exact ⟨_, inherited, dynamic, ha, hinherited, hdynamic, rfl⟩
  · rintro ⟨levels, inherited, dynamic, ha, hinherited, hdynamic, rfl⟩
    refine ⟨inherited, ?_, (planOn_eq_ok_iff hw ha).mpr ⟨dynamic, hdynamic, rfl⟩⟩
    rw [Definitions.lineage_eq_iff.mpr ha]
    exact hinherited

/-- **Compilation is a matter of the definitions alone**, failures included. -/
theorem compile_congr (hw : w.definitions.Plain) (hs : w'.definitions = w.definitions) :
    w'.compile (.own global) factory names = w.compile (.own global) factory names := by
  unfold compile Definitions.foundation
  rw [hs]
  -- A lineage that is not closed fails before anything else is read.
  by_cases hclosed : (w.definitions.lineage factory).closed = true
  · have ha := Definitions.ancestry_lineage hclosed
    simp only [hclosed, if_true, staticLayers_congr hw hs ha, planOn, hs,
      expandAll_congr hw hs ha]
    obtain ⟨t, ht⟩ := ha.template?_self
    obtain ⟨definition, hd, _⟩ := Definitions.get?_of_template? ht
    simp only [hd, writtenName_plain (hw factory definition hd)]
  · simp only [if_neg hclosed, staticLayers_error]
    rfl

/-- **Every compiled plan has an outline**, and the outline's layers. -/
theorem exists_outline (hw : w.definitions.Plain)
    (h : w.compile (.own global) factory names = .ok plan) :
    ∃ o : Outline, o.Of w.definitions global factory names ∧
      plan = Plan.assemble (w.definitions.nameOf factory)
        ((w.definitions.model? factory).getD .null) names (o.layers w.definitions) := by
  obtain ⟨levels, inherited, dynamic, ha, hinherited, hdynamic, rfl⟩ := (compile_eq_ok_iff hw).mp h
  obtain ⟨ls, rfl, hls, rfl⟩ := exists_levels hw ha hinherited
  obtain ⟨is, his, rfl⟩ := exists_inclusions_of_expandAll hw ha hdynamic
  exact ⟨⟨factory, ls, is⟩, ⟨rfl, ha, hls, his⟩, rfl⟩

/-- **A plan stays what it is** while all that is read for it stays. -/
theorem compile_kept (hw : w.definitions.Plain) (hw' : w'.definitions.Plain)
    (hk : w.definitions.KeepsRead w'.definitions global (w.definitions.levels factory))
    (h : w.compile (.own global) factory names = .ok plan) :
    w'.compile (.own global) factory names = .ok plan := by
  obtain ⟨levels, inherited, dynamic, ha, hinherited, hdynamic, rfl⟩ := (compile_eq_ok_iff hw).mp h
  rw [Definitions.levels_of_ancestry ha] at hk
  refine (compile_eq_ok_iff hw').mpr ⟨levels, inherited, dynamic, hk.ancestry ha,
    staticLayers_kept hw hw' hk ha hinherited, expandAll_kept hw hw' hk ha hdynamic, ?_⟩
  rw [hk.nameOf ha, hk.model? ha]

end World

end TraitFactory
