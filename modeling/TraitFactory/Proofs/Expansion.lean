import TraitFactory.Proofs.Building
import TraitFactory.Proofs.Expanding
import TraitFactory.Proofs.Transparency

/-!
# What an expansion comes to

In every world that sound declarations lead to, a compilation gives a plan just when every visited
reference can be opened, and else the failure of the first one that cannot: a missing trait is told
with the factory searched and the trait that applies it, and a cycle with the way from the trait
that is applied directly to the one that is met again.
-/

namespace TraitFactory

namespace World

variable {w : World}

/-- Hooks can be called when those of every definition that there is can be. -/
theorem hooksCallable_of_all (h : w.definitions.items.all (·.hooksCallable) = true)
    (d : DefinitionId) (definition : Definition) (hd : w.definitions.get? d = some definition) :
    definition.hooksCallable = true := by
  obtain ⟨hlt, hget⟩ := Array.getElem?_eq_some_iff.mp hd
  exact hget ▸ Array.all_eq_true.mp h d.index hlt

/-- A factory, and two traits that apply each other. -/
def circle : World :=
  ((((fresh.after (.defineFactory (some (.registry ⟨0⟩)) (.text "f") .null .null none)).after
    (.defineTrait (some (.registry ⟨0⟩)) (.text "a"))).after
    (.defineTrait (some (.registry ⟨0⟩)) (.text "b"))).after
    (.apply (.builder ⟨1⟩) (.text "b"))).after
    (.apply (.builder ⟨2⟩) (.text "a"))

theorem run_circle : DeclaringRun ⟨0⟩ fresh circle := by
  refine applied_after ?_ (builds_of_builder (by decide +kernel)) (by decide +kernel)
  refine applied_after ?_ (builds_of_builder (by decide +kernel)) (by decide +kernel)
  refine declared_after ?_ (.defineTrait (by rfl) _) trivial (nomatch ·) (by decide +kernel)
  refine declared_after ?_ (.defineTrait (by rfl) _) trivial (nomatch ·) (by decide +kernel)
  exact declared_after .refl (.defineFactory (by rfl) _ _ _ _) trivial (nomatch ·)
    (by decide +kernel)

end World

namespace Action

variable {r : RegistryId} {w : World} {reg : Registry} {factory : Value} {traits : Option Value}
  {f : DefinitionId} {dynamic : List String}

/-- **A call comes to what its compilation without a cache does**, where the cache is right and
parents are known. -/
theorem comesTo_compile (h : w.Tracked r reg) (hparents : w.ParentsKnown r)
    (ha : Asks w reg factory traits f dynamic) :
    ComesTo r factory traits w (w.compile (.own reg.globals) f dynamic) := by
  have hcomes : ComesTo r factory traits w (ruled w reg factory traits) :=
    comesTo_ruled h (h.coherent hparents)
  obtain ⟨w', hnamed⟩ := named_of_asks ha
  rwa [ruled, hnamed] at hcomes

/-- A call comes to one thing only. -/
theorem ComesTo.unique {outcome outcome' : Except Failure Plan}
    (h : ComesTo r factory traits w outcome) (h' : ComesTo r factory traits w outcome') :
    outcome = outcome' := by
  have hmap : outcome.map some = outcome'.map some := Eq.trans (Eq.symm h) h'
  cases outcome <;> cases outcome' <;> simp_all [Except.map]

/-- A registered factory of a founded catalogue is compiled from its levels. -/
theorem ancestry_of_registered (hf : (w.catalogue r).Founded) {name : String}
    (hname : (w.catalogue r).factories.get? name = some f) :
    Ancestry w.definitions f (w.definitions.levels f) := by
  obtain ⟨levels, hlevels⟩ := hf.levels hname
  have hlevels : Ancestry w.definitions f levels := hlevels
  rwa [Definitions.levels_of_ancestry hlevels]

/-- **What a registered factory compiles to** with some call-time traits: every call that asks for
them comes to it. -/
def Compiles (r : RegistryId) (w : World) (f : DefinitionId) (dynamic : List String)
    (outcome : Except Failure Plan) : Prop :=
  ∃ reg, w.registryAt? r = some reg ∧ (∃ name, reg.factory? name = some f) ∧
    ∀ factory traits, Asks w reg factory traits f dynamic → ComesTo r factory traits w outcome

theorem compiles_of_orderly (h : w.Tracked r reg) (ho : (w.catalogue r).Orderly)
    (hf : w.Registered r f) (dynamic : List String) :
    Compiles r w f dynamic (w.compile (.own reg.globals) f dynamic) := by
  obtain ⟨name, hname⟩ := hf
  exact ⟨reg, h.neat.registry, ⟨name, h.neat.factory?_eq name ▸ hname⟩, fun _ _ ha =>
    comesTo_compile h (World.parentsKnown_of_orderly h.neat ho) ha⟩

/-- A call that asks for what is compiled comes to it. -/
theorem Compiles.planOf_eq {outcome : Except Failure Plan} (h : Compiles r w f dynamic outcome)
    (factory : Value) (traits : Option Value)
    (hnamed : ((named ((w.registryAt? r).getD {}) factory traits).execute w).1 =
      .ok (f, dynamic)) : planOf r factory traits w = outcome.map some := by
  obtain ⟨reg, hreg, _, hcomes⟩ := h
  rw [hreg] at hnamed
  exact hcomes factory traits (asks_of_named (execute_of_outcome hnamed))

/-- **The exact outcome of an expansion.** In every world that sound declarations lead to, with
parents that are registered and hooks that can be called, the references that a call of the compiler
visits are determined, each with the way to it. The call gives a plan just when every one of them
can be opened. Else it fails for the first that cannot: where nothing is visible under its name,
the failure tells the name, the factory searched, and the trait that applies the name, if one does;
and where its trait stands around it already, the failure tells the way to it and the trait once
more. -/
theorem expansion_outcome {w₀ : World} (hstart : w₀.Neat r {})
    (hfounded : (w₀.catalogue r).Founded) (hrun : DeclaringRun r w₀ w)
    (hparents : w.ParentsKnown r)
    (hhooks : ∀ d definition, w.definitions.get? d = some definition →
      definition.hooksCallable = true)
    (hreg : w.registryAt? r = some reg) (ha : Asks w reg factory traits f dynamic)
    (hnames : ∀ level ∈ w.definitions.levels f, w.definitions.nameOf level ≠ "") :
    ∃ vs, (∀ vs', Visited w.definitions reg.globals f dynamic vs' ↔ vs' = vs) ∧
      (∀ v ∈ vs, v.scope ∈ w.definitions.levels f ∧
        ((∃ definition, w.definitions.get? v.scope = some definition ∧
          InclusionPath w.definitions reg.globals v.scope definition.applied v.trail v.name) ∨
        v.scope = f ∧ InclusionPath w.definitions reg.globals f dynamic v.trail v.name)) ∧
      ((∃ plan, ComesTo r factory traits w (.ok plan)) ↔
        ∀ v ∈ vs, v.Opens w.definitions reg.globals) ∧
      ∀ before v after, vs = before ++ v :: after →
        (∀ u ∈ before, u.Opens w.definitions reg.globals) →
        (v.target? w.definitions reg.globals = none →
          ComesTo r factory traits w (.error (Failure.raise (.traitNotFound v.name)
            (some { factory := some (w.definitions.nameOf v.scope),
                    trait := v.trail.getLast?.map w.definitions.nameOf })))) ∧
        ∀ t, v.target? w.definitions reg.globals = some t → t ∈ v.trail →
          ComesTo r factory traits w (.error (Failure.raise
            (.traitCycle ((v.trail ++ [t]).map w.definitions.nameOf))
            (some { factory := some (w.definitions.nameOf v.scope) }))) := by
  obtain ⟨reg', h, hf⟩ := World.founded_run (World.tracked_new hstart) hfounded hrun
  obtain rfl := Option.some.inj (hreg.symm.trans h.neat.registry)
  obtain ⟨name, _, hregistered⟩ := ha.factory
  have hancestry := ancestry_of_registered hf ((h.neat.factory?_eq name).trans hregistered)
  have hstocked : w.definitions.Stocked reg.globals := h.neat.traits_eq ▸ hf.stocked
  obtain ⟨vs, hvs⟩ := Visited.exists_of_ancestry hstocked hancestry dynamic
  have hcomes := comesTo_compile h hparents ha
  have hfailure := World.failureOf_compile h.neat.definitions hhooks hvs
  refine ⟨vs, fun vs' => ⟨fun h' => h'.unique hvs, fun h' => h' ▸ hvs⟩,
    fun v hv => ⟨hvs.scope_mem hancestry hv, hvs.inclusionPath hv⟩, ?_, ?_⟩
  · -- There is a plan just when no visited reference has a failure.
    have hplan : (∃ plan, ComesTo r factory traits w (.ok plan)) ↔
        ∃ plan, w.compile (.own reg.globals) f dynamic = .ok plan :=
      ⟨fun ⟨plan, hp⟩ => ⟨plan, hcomes.unique hp⟩, fun ⟨plan, hp⟩ => ⟨plan, hp ▸ hcomes⟩⟩
    rw [hplan, exists_ok_iff_failureOf, hfailure, List.findSome?_eq_none_iff]
    exact forall₂_congr fun v _ => Definitions.failure?_eq_none_iff
  · rintro before v after rfl hbefore
    -- The failure of the first that cannot be opened is that of the whole.
    have hfirst : ∀ e, w.definitions.failure? reg.globals v = some e →
        ComesTo r factory traits w (.error e) := by
      intro e he
      have hnone : before.findSome? (w.definitions.failure? reg.globals) = none :=
        List.findSome?_eq_none_iff.mpr fun u hu =>
          Definitions.failure?_eq_none_iff.mpr (hbefore u hu)
      rw [List.findSome?_append, hnone, Option.none_or, List.findSome?_cons, he] at hfailure
      exact eq_error_of_failureOf hfailure ▸ hcomes
    have hname := hnames v.scope (hvs.scope_mem hancestry (by simp))
    refine ⟨fun htarget => hfirst _ ?_, fun t htarget ht => hfirst _ ?_⟩
    · rw [Definitions.failure?, htarget]
      -- The factory searched has a name, so it is told.
      simp [Definitions.missingFailure, Failure.traitNotFound, hname]
    · rw [Definitions.failure?, htarget]
      simp only [ht, if_true]
      rfl

/-- What a call visits that applies one of two traits which apply each other. -/
theorem visited_circle : Visited World.circle.definitions
    ((World.circle.registryAt? ⟨0⟩).getD {}).globals ⟨0⟩ ["a"]
    [⟨⟨0⟩, [], "a"⟩, ⟨⟨0⟩, [⟨1⟩], "b"⟩, ⟨⟨0⟩, [⟨1⟩, ⟨2⟩], "a"⟩] := by
  have happlied : ∀ d names,
      (World.circle.definitions.get? d).map (·.applied) = some names →
      ∃ definition, World.circle.definitions.get? d = some definition ∧
        definition.applied = names := fun _ _ => Option.map_eq_some_iff.mp
  obtain ⟨f, hf, hfApplied⟩ := happlied ⟨0⟩ [] (by decide +kernel)
  obtain ⟨a, ha, haApplied⟩ := happlied ⟨1⟩ ["b"] (by decide +kernel)
  obtain ⟨b, hb, hbApplied⟩ := happlied ⟨2⟩ ["a"] (by decide +kernel)
  have hancestry : Ancestry World.circle.definitions ⟨0⟩ [⟨0⟩] :=
    .oldest (t := {}) (by decide +kernel) rfl
  -- The call opens the one trait, inside it the other, and there it meets the first again.
  have hagain : Visits World.circle.definitions
      ((World.circle.registryAt? ⟨0⟩).getD {}).globals ⟨0⟩ [⟨1⟩, ⟨2⟩] b.applied
      [⟨⟨0⟩, [⟨1⟩, ⟨2⟩], "a"⟩] :=
    hbApplied ▸ .cyclic (t := ⟨1⟩) (by decide +kernel) (by decide) .nil
  have hinside : Visits World.circle.definitions
      ((World.circle.registryAt? ⟨0⟩).getD {}).globals ⟨0⟩ [⟨1⟩] a.applied
      [⟨⟨0⟩, [⟨1⟩], "b"⟩, ⟨⟨0⟩, [⟨1⟩, ⟨2⟩], "a"⟩] := by
    rw [haApplied]
    exact .single (t := ⟨2⟩) (by decide +kernel) (by decide) hb hagain
  have habove : Visits World.circle.definitions ((World.circle.registryAt? ⟨0⟩).getD {}).globals
      ⟨0⟩ [] f.applied [] := hfApplied ▸ .nil
  exact ⟨[⟨0⟩], [], _, hancestry, .level hf .nil habove,
    .single (t := ⟨1⟩) (by decide +kernel) (by decide) ha hinside, rfl⟩

/-- Two traits that apply each other: the way is told from the trait that the call applies. -/
theorem expansion_outcome_circle :
    ComesTo ⟨0⟩ (.text "f") (some (.text "a")) World.circle
      (.error (Failure.raise (.traitCycle ["a", "b", "a"])
        (some { factory := some "f" }))) := by
  have hasks : Asks World.circle ((World.circle.registryAt? ⟨0⟩).getD {}) (.text "f")
      (some (.text "a")) ⟨0⟩ ["a"] := asks_of_named (execute_of_outcome (by decide +kernel))
  obtain ⟨vs, hvs, _, _, hfirst⟩ := expansion_outcome World.neat_fresh
    World.orderly_fresh.toFounded World.run_circle
    (World.parentsKnown_of_all (by decide +kernel))
    (World.hooksCallable_of_all (by decide +kernel)) (by decide +kernel) hasks (by decide +kernel)
  obtain rfl := (hvs _).mp visited_circle
  refine (hfirst [⟨⟨0⟩, [], "a"⟩, ⟨⟨0⟩, [⟨1⟩], "b"⟩] ⟨⟨0⟩, [⟨1⟩, ⟨2⟩], "a"⟩ [] rfl fun u hu => ?_).2
    ⟨1⟩ (by decide +kernel) (by decide)
  rcases List.mem_cons.mp hu with rfl | hu
  · exact ⟨⟨1⟩, by decide +kernel, by decide⟩
  · obtain rfl := List.mem_singleton.mp hu
    exact ⟨⟨2⟩, by decide +kernel, by decide⟩

end Action

end TraitFactory
