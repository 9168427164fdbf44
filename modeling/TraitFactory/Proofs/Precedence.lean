import TraitFactory.Proofs.Overriding
import TraitFactory.Proofs.Transparency

/-!
# Layers and precedence of compiled plans

What a plan compiled in a registry is made of, in every world that public steps lead to. Its layers
are those of the factory's outline, from the oldest level to the last call-time trait, so the layers
of a parent come first in the plan of every child. What the plan holds for a name is what a search
through the outline finds from the top, and overrides of one call come before that.
-/

namespace TraitFactory

namespace Action

variable {r : RegistryId} {w w' : World} {reg : Registry} {factory : Value}
  {traits : Option Value} {p : PlanId}

/-! ## 1. The outline of a compiled plan -/

/-- **A compiled plan is made of the layers of an outline**: that of the factory and the call-time
traits which the call asks for. -/
theorem outline_of_compile (h : w.Tracked r reg) (hco : w.Coherent reg)
    (hexec : (compile r factory traits).execute w = (.ok p, w')) :
    ∃ (f : DefinitionId) (dynamic : List String) (o : Outline) (plan : Plan),
      Asks w reg factory traits f dynamic ∧
      o.Of w.definitions reg.globals f dynamic ∧ w'.plan? p = some plan ∧
      w.compile (.own reg.globals) f dynamic = .ok plan ∧
      plan = Plan.assemble (w.definitions.nameOf f) ((w.definitions.model? f).getD .null) dynamic
        (o.layers w.definitions) := by
  obtain ⟨e, w₁, _, hexec', _⟩ | ⟨f, dynamic, w₁, outcome, c, w₁', hnamed, hexec', hc⟩ :=
    compile_spec h.neat factory traits
  · rw [hexec] at hexec'
    cases hexec'
  · rw [hexec] at hexec'
    cases hexec'
    obtain ⟨plan, hplan, hp, _⟩ := hc.outcome hco h.sound
    obtain ⟨o, ho, hassemble⟩ := World.exists_outline h.neat.definitions hplan
    exact ⟨f, dynamic, o, plan, asks_of_named hnamed, ho, hp, hplan, hassemble⟩

/-! ## 2. Layers -/

/-- **A parent's layers come first** in whatever is compiled from a child. -/
theorem prefix_of_parent {w : World} (hw : w.definitions.Plain) {global : Table DefinitionId}
    {child parent : DefinitionId} {t : Template} {dynamic : List String} {plan : Plan}
    (ht : w.definitions.template? child = some t) (hparent : t.parent = .definition parent)
    (h : w.compile (.own global) child dynamic = .ok plan) :
    ∃ plan', w.compile (.own global) parent [] = .ok plan' ∧ plan'.layers <+: plan.layers := by
  obtain ⟨levels, inherited, layers, ha, hinherited, _, rfl⟩ := (World.compile_eq_ok_iff hw).mp h
  -- The child is not the oldest level, and the layers of those above it come first.
  cases ha with
  | oldest ht' hp' =>
    obtain rfl := Option.some.inj (ht.symm.trans ht')
    rw [hparent] at hp'
    cases hp'
  | child ht' hp' ha =>
    obtain rfl := Option.some.inj (ht.symm.trans ht')
    obtain rfl := Value.definition.inj (hparent.symm.trans hp')
    obtain ⟨older, own, holder, _, rfl⟩ := World.staticLayers_cons_eq_ok_iff.mp hinherited
    refine ⟨_, (World.compile_eq_ok_iff hw).mpr ⟨_, older, [], ha, holder, rfl, rfl⟩, ?_⟩
    show older ++ [] <+: older ++ own ++ layers
    rw [List.append_nil, List.append_assoc]
    exact List.prefix_append older (own ++ layers)

/-- **The layer stack.** In every world that public steps lead to, a plan that the compiler gives
has exactly the layers of the outline of its factory and call-time traits: for each level from the
oldest ancestor to the factory the traits that the level applies in post-order, seen from the level,
and then the level itself; and at last the call-time traits in post-order, seen from the factory. So
the layers of a parent, compiled without call-time traits, are the first of them. -/
theorem layer_stack {w₀ : World} (hstart : w₀.Neat r {}) (hrun : Run r w₀ w)
    (hparents : w.ParentsKnown r)
    (hexec : (compile r factory traits).execute w = (.ok p, w')) :
    ∃ (reg : Registry) (f : DefinitionId) (dynamic : List String) (o : Outline) (plan : Plan),
      w.registryAt? r = some reg ∧ Asks w reg factory traits f dynamic ∧
      o.Of w.definitions reg.globals f dynamic ∧ w'.plan? p = some plan ∧
      plan.layers = o.layers w.definitions ∧
      ∀ t parent, w.definitions.template? f = some t → t.parent = .definition parent →
        ∃ plan', ComesTo r (.text (w.definitions.nameOf parent)) none w (.ok plan') ∧
          plan'.layers <+: plan.layers := by
  obtain ⟨reg, h⟩ := tracked_run (World.tracked_new hstart) hrun
  have hco := h.coherent hparents
  obtain ⟨f, dynamic, o, plan, ha, ho, hp, hplan, hassemble⟩ := outline_of_compile h hco hexec
  refine ⟨reg, f, dynamic, o, plan, h.neat.registry, ha, ho, hp, by rw [hassemble]; rfl, ?_⟩
  intro t parent ht hparent
  obtain ⟨plan', hplan', hprefix⟩ := prefix_of_parent h.neat.definitions ht hparent hplan
  obtain ⟨name, _, hf⟩ := ha.factory
  have hregistered := hparents reg h.neat.registry name f t parent hf ht hparent
  refine ⟨plan', ?_, hprefix⟩
  -- The parent is registered under its own name, so a call by that name compiles it.
  have hcomes : ComesTo r (.text (w.definitions.nameOf parent)) none w _ := comesTo_ruled h hco
  rw [ruled, named_text hregistered] at hcomes
  exact hplan' ▸ hcomes

/-- What a child in a family of factories is compiled from when a call adds its parent's trait. -/
theorem asks_family : ∃ reg, World.family.registryAt? ⟨0⟩ = some reg ∧
    Asks World.family reg (.text "child") (some (.text "v")) ⟨2⟩ ["v"] := by
  refine ⟨(World.family.registryAt? ⟨0⟩).getD {}, ?_, asks_of_named (execute_of_outcome ?_)⟩ <;>
    decide +kernel

theorem layer_stack_family :
    ∃ (reg : Registry) (o : Outline) (p : PlanId) (w' : World) (plan : Plan),
      World.family.registryAt? ⟨0⟩ = some reg ∧
      o.Of World.family.definitions reg.globals ⟨2⟩ ["v"] ∧
      (compile ⟨0⟩ (.text "child") (some (.text "v"))).execute World.family = (.ok p, w') ∧
      w'.plan? p = some plan ∧ plan.layers = o.layers World.family.definitions ∧
      ∃ plan', ComesTo ⟨0⟩ (.text "base") none World.family (.ok plan') ∧
        plan'.layers <+: plan.layers := by
  have hexec : (compile ⟨0⟩ (.text "child") (some (.text "v"))).execute World.family =
      (.ok ⟨0⟩, _) := execute_of_outcome (by decide +kernel)
  obtain ⟨reg, f, dynamic, o, plan, hreg, ha, ho, hplan, hlayers, hparent⟩ :=
    layer_stack World.neat_fresh World.run_family World.parentsKnown_family hexec
  obtain ⟨reg', hreg', ha'⟩ := asks_family
  obtain rfl := Option.some.inj (hreg.symm.trans hreg')
  obtain ⟨rfl, rfl⟩ := ha.unique ha'
  exact ⟨reg, o, _, _, plan, hreg, ho, hexec, hplan, hlayers,
    hparent ⟨.definition ⟨0⟩, .null, .own ∅⟩ ⟨0⟩ (by decide +kernel) rfl⟩

/-! ## 3. Precedence -/

/-- **Precedence, end to end.** In every world that public steps lead to, what a compiled plan with
the overrides of a call holds for a name is what the last override of that name declares; else what
the search through the outline finds from the top: the last call-time trait that supplies the name,
or the first level, from the factory up through its parents, that has it. Overrides with names and
hooks that can be called always make such a plan. -/
theorem precedence {w₀ : World} (hstart : w₀.Neat r {}) (hrun : Run r w₀ w)
    (hparents : w.ParentsKnown r)
    (hexec : (compile r factory traits).execute w = (.ok p, w')) :
    ∃ (reg : Registry) (f : DefinitionId) (dynamic : List String) (o : Outline),
      w.registryAt? r = some reg ∧ Asks w reg factory traits f dynamic ∧
      o.Of w.definitions reg.globals f dynamic ∧
      ∀ (w₂ : World) entries constructor persistor, w₂.plan? p = w'.plan? p →
        (∀ e ∈ entries, w₂.Holds e.2) →
        (∀ q w₃, (applyOverrides p entries constructor persistor).execute w₂ = (.ok q, w₃) →
          ∃ plan, w₃.plan? q = some plan ∧ ∀ name,
            Prevails w₂ entries name (o.search (w.definitions.declared? name))
              (plan.declaration? name)) ∧
        ((∀ e ∈ entries, e.1.name?.isSome) → hooksCallable constructor persistor = true →
          ∃ q w₃, (applyOverrides p entries constructor persistor).execute w₂ = (.ok q, w₃)) := by
  obtain ⟨reg, h⟩ := tracked_run (World.tracked_new hstart) hrun
  obtain ⟨f, dynamic, o, plan, ha, ho, hp, _, hassemble⟩ :=
    outline_of_compile h (h.coherent hparents) hexec
  refine ⟨reg, f, dynamic, o, h.neat.registry, ha, ho, fun w₂ entries constructor persistor hp₂
    hheld => ?_⟩
  have hp₂ : w₂.plan? p = some plan := hp₂.trans hp
  -- Below the overrides the plan holds what the search of the outline finds.
  have hflat : plan.Flat := hassemble ▸ Plan.flat_assemble _ _ _ _
  have hbelow : ∀ name, plan.declaration? name = o.search (w.definitions.declared? name) := by
    intro name
    rw [hassemble, Plan.declaration?_assemble, Outline.findSome?_layers h.neat.definitions]
  refine ⟨fun q w₃ hover => ?_, fun hnames hhooks => ?_⟩
  · obtain ⟨hnames, hhooks⟩ := applicable_of_applyOverrides hover
    obtain ⟨q', w₃', plan', hover', hq', hprevails⟩ :=
      applyOverrides_spec hp₂ hflat hnames hheld hhooks
    rw [hover] at hover'
    cases hover'
    exact ⟨plan', hq', fun name => hbelow name ▸ hprevails name⟩
  · obtain ⟨q, w₃, _, hover, _⟩ := applyOverrides_spec hp₂ hflat hnames hheld hhooks
    exact ⟨q, w₃, hover⟩

theorem precedence_family :
    ∃ (reg : Registry) (o : Outline) (p q : PlanId) (w₁ w₂ : World) (plan : Plan),
      World.family.registryAt? ⟨0⟩ = some reg ∧
      o.Of World.family.definitions reg.globals ⟨2⟩ ["v"] ∧
      (compile ⟨0⟩ (.text "child") (some (.text "v"))).execute World.family = (.ok p, w₁) ∧
      (applyOverrides p [(.text "rank", .int 3)] none none).execute w₁ = (.ok q, w₂) ∧
      w₂.plan? q = some plan ∧ ∀ name, Prevails w₁ [(.text "rank", .int 3)] name
        (o.search (World.family.definitions.declared? name)) (plan.declaration? name) := by
  have hexec : (compile ⟨0⟩ (.text "child") (some (.text "v"))).execute World.family =
      (.ok ⟨0⟩, _) := execute_of_outcome (by decide +kernel)
  obtain ⟨reg, f, dynamic, o, hreg, ha, ho, hover⟩ :=
    precedence World.neat_fresh World.run_family World.parentsKnown_family hexec
  obtain ⟨reg', hreg', ha'⟩ := asks_family
  obtain rfl := Option.some.inj (hreg.symm.trans hreg')
  obtain ⟨rfl, rfl⟩ := ha.unique ha'
  obtain ⟨hfound, hmakes⟩ :=
    hover _ [(.text "rank", .int 3)] none none rfl (by simp [World.Holds])
  obtain ⟨q, w₂, hexec'⟩ := hmakes (by simp [Value.name?, Value.asText?]) rfl
  obtain ⟨plan, hplan, hprevails⟩ := hfound q w₂ hexec'
  exact ⟨reg, o, _, q, _, w₂, plan, hreg, ho, hexec, hexec', hplan, hprevails⟩

end Action

end TraitFactory
