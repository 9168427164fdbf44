import TraitFactory.Proofs.Building
import TraitFactory.Proofs.Expansion
import TraitFactory.Proofs.Sparing

/-!
# Declarations elsewhere

What a factory compiles to is a matter of its own levels and of the traits that are visible from
them. Declarations on other factories, on their traits, and new factories leave it as it is; a new
global trait leaves every plan as it is; and a new trait of one of the factory's levels changes a
plan only through a reference that resolved above that level.
-/

namespace TraitFactory

/-! ## 1. Commands that add a trait -/

/-- **A command that puts a trait in a table under a name**: in the global one, or in that of a
factory. -/
inductive AddsTrait (w : World) (r : RegistryId) : Option DefinitionId → String → Command → Prop
  | defined {registry : Option Value} {name : Value} {text : String} (h : w.Means r registry)
      (hname : name.name? = some text) : AddsTrait w r none text (.defineTrait registry name)
  | declared {on name : Value} {g : DefinitionId} {text : String} (hon : w.BuildsOn r g on)
      (hname : name.name? = some text) : AddsTrait w r (some g) text (.localTrait on name)
  | registered {registry : Option Value} {scope name definition : Value}
      {site : Option DefinitionId} {text : String} (h : w.Means r registry)
      (hscope : (Action.scopeFactory r scope).execute w = (.ok site, w))
      (hname : name.name? = some text) :
      AddsTrait w r site text (.registerTrait registry scope name definition)

namespace Catalogue

variable {c : Catalogue} {site : Option DefinitionId} {name : String}

theorem gains_place (hfree : c.at? site name = none) (t : DefinitionId) :
    Gains site name c (c.place site name t) := ⟨hfree, fun _ _ h => at?_place_of_ne h⟩

/-- A trait that is made and put in a table is in no other. -/
theorem gains_made (hfree : c.at? site name = none) (t : DefinitionId) :
    Gains site name c ((c.make (.newTrait name)).place site name t) := by
  have hlocals := (c.makes_newTrait name).locals
  exact ⟨hfree, fun site' name' h => (at?_place_of_ne h).trans (at?_make hlocals site' name')⟩

end Catalogue

open Action

namespace AddsTrait

variable {w w' : World} {r : RegistryId} {reg : Registry} {site : Option DefinitionId}
  {text : String} {c : Command} {host : Host} {v : Value}

theorem declares (h : AddsTrait w r site text c) : Declares w r c := by
  cases h with
  | defined h => exact .defineTrait h _
  | declared hon => exact .localTrait hon.builds _
  | registered h => exact .registerTrait h _ _ _

/-- **The table has gained the trait** under a name that was free, and no definition contributes
anything else than before. -/
theorem effect (hn : w.Neat r reg) (h : AddsTrait w r site text c)
    (hok : (performCommand host c).execute w = (.ok v, w')) :
    (w.catalogue r).Gains site text (w'.catalogue r) ∧
      ∀ reads, (w.catalogue r).Spares reads (w'.catalogue r) := by
  cases h with
  | defined h hname =>
    rw [performCommand, execute_bind_ok h] at hok
    obtain ⟨text', hname', hfree, heffect⟩ := defineTrait_effect hn hok
    obtain rfl := Option.some.inj (hname.symm.trans hname')
    rw [heffect]
    exact ⟨Catalogue.gains_made hfree _,
      fun _ => (Catalogue.spares_make _ _).trans (Catalogue.spares_place _ _ _ _)⟩
  | declared hon hname =>
    obtain ⟨site, text', hsite, hname', hfree, heffect⟩ := localTrait_effect hn hon.builds hok
    obtain rfl := Option.some.inj (hname.symm.trans hname')
    obtain rfl := hsite _ hon
    rw [heffect]
    exact ⟨Catalogue.gains_made hfree _,
      fun _ => (Catalogue.spares_make _ _).trans (Catalogue.spares_place _ _ _ _)⟩
  | registered h hscope hname =>
    obtain ⟨d, site', text', _, hscope', hname', hfree, heffect⟩ := registerTrait_command hn h hok
    obtain rfl := Option.some.inj (hname.symm.trans hname')
    obtain rfl : site = site' := Except.ok.inj (Prod.mk.inj (hscope.symm.trans hscope')).1
    rw [heffect]
    exact ⟨Catalogue.gains_place hfree d, fun _ => Catalogue.spares_place _ _ _ d⟩

end AddsTrait

/-! ## 2. Declarations elsewhere -/

/-- **Declarations elsewhere**: on a factory that is none of certain levels, on a trait of such a
factory, or of a new factory. -/
inductive Elsewhere (w : World) (r : RegistryId) (levels : List DefinitionId) : Command → Prop
  | factory {c : Command} {on : Value} {g : DefinitionId} {t : Template} (h : DeclaresOn on c)
      (hon : w.BuildsOn r g on) (ht : w.definitions.template? g = some t) (hg : g ∉ levels) :
      Elsewhere w r levels c
  | localTrait {c : Command} {on : Value} {g t : DefinitionId} {name : String}
      (h : DeclaresOn on c) (hon : w.BuildsOn r t on)
      (hat : (w.catalogue r).at? (some g) name = some t) (hg : g ∉ levels) :
      Elsewhere w r levels c
  | adds {c : Command} {g : DefinitionId} {text : String} (h : AddsTrait w r (some g) text c)
      (hg : g ∉ levels) : Elsewhere w r levels c
  | defineFactory {registry : Option Value} (h : w.Means r registry) (name model parent : Value)
      (traits : Option Value) :
      Elsewhere w r levels (.defineFactory registry name model parent traits)
  | childFactory {on : Value} (h : w.Builds r on) (name model : Value) (traits : Option Value) :
      Elsewhere w r levels (.childFactory on name model traits)
  | registerFactory {registry : Option Value} (h : w.Means r registry) (definition : Value) :
      Elsewhere w r levels (.registerFactory registry definition)

namespace Catalogue.Orderly

variable {c : Catalogue} {f g t : DefinitionId} {levels : List DefinitionId} {name : String}

/-- A factory is read only as a level. -/
theorem unread_factory (h : c.Orderly) {template : Template}
    (ht : c.definitions.template? g = some template) (hg : g ∉ levels) :
    ¬ c.definitions.Reads c.traits levels g := by
  rintro (hlevel | ⟨_, _, name, hv⟩)
  · exact hg hlevel
  -- What is visible is a trait.
  · obtain ⟨site, _, hat⟩ := exists_place hv
    cases (h.areTraits site name g hat).symm.trans ht

/-- A trait of a factory is read only where the factory is a level. -/
theorem unread_localTrait (h : c.Orderly) (ha : Ancestry c.definitions f levels)
    (hat : c.at? (some g) name = some t) (hg : g ∉ levels) :
    ¬ c.definitions.Reads c.traits levels t := by
  rintro (hlevel | ⟨level, hlevel, name', hv⟩)
  · obtain ⟨_, ht⟩ := ha.template?_isSome hlevel
    cases (h.areTraits _ _ _ hat).symm.trans ht
  -- It stands in no other table, so the factory would be among the levels of a level.
  · obtain ⟨site, hsite, hat'⟩ := exists_place hv
    obtain rfl := h.once _ _ _ _ _ hat hat'
    obtain ⟨older, ha', hsuffix⟩ := ha.of_mem hlevel
    have hmem := hsite g rfl
    rw [Definitions.levels_of_ancestry ha'] at hmem
    exact hg (hsuffix.subset hmem)

end Catalogue.Orderly

section

variable {w w' : World} {r : RegistryId} {reg : Registry} {f : DefinitionId} {c : Command}
  {host : Host} {v : Value} {levels : List DefinitionId}

theorem DeclaresOn.declared {proper : Prop} {on : Value} (h : DeclaresOn on c)
    (hon : w.Builds r on) (hok : (performCommand host c).execute w = (.ok v, w')) :
    Declared proper r w w' := by
  cases h with
  | apply traits => exact .applied hon hok
  | set name value computed =>
    exact .declared (.set hon name value computed) trivial (fun _ => trivial) hok
  | associate name factory traits strategy overrides =>
    exact .declared (.associate hon name factory traits strategy overrides) trivial
      (fun _ => trivial) hok
  | initializeWith fn => exact .declared (.initializeWith hon fn) trivial (fun _ => trivial) hok
  | toCreate fn => exact .declared (.toCreate hon fn) trivial (fun _ => trivial) hok
  | callback event fn => exact .declared (.callback hon event fn) trivial (fun _ => trivial) hok
  | callbackMethod event fn =>
    exact .declared (.callbackMethod hon event fn) trivial (fun _ => trivial) hok

theorem Elsewhere.declared {proper : Prop} (h : Elsewhere w r levels c) (hsound : c.Sound w)
    (hproper : proper → c.Proper w r) (hok : (performCommand host c).execute w = (.ok v, w')) :
    Declared proper r w w' := by
  cases h with
  | factory h hon => exact h.declared hon.builds hok
  | localTrait h hon => exact h.declared hon.builds hok
  | adds h => exact .declared h.declares hsound hproper hok
  | defineFactory h name model parent traits =>
    exact .declared (.defineFactory h name model parent traits) hsound hproper hok
  | childFactory h name model traits =>
    exact .declared (.childFactory h name model traits) hsound hproper hok
  | registerFactory h definition =>
    exact .declared (.registerFactory h definition) hsound hproper hok

/-- A factory that is defined changes no table of traits. -/
theorem effect_defineFactory (hn : w.Neat r reg) {name model parent : Value}
    {traits : Option Value}
    (hok : (defineFactory r name model parent traits).execute w = (.ok v, w')) :
    (∀ reads, (w.catalogue r).Spares reads (w'.catalogue r)) ∧
      ∀ site name, (w'.catalogue r).at? site name = (w.catalogue r).at? site name := by
  obtain ⟨text, applied, parent', _, _, hfree, heffect⟩ := defineFactory_effect hn hok
  rw [heffect]
  refine ⟨fun reads => (Catalogue.spares_make _ _).trans (Catalogue.spares_enrol hfree),
    fun site name => ?_⟩
  have hmake := Catalogue.at?_make (c := w.catalogue r)
    (x := .newFactory text applied parent' model) (fun _ => rfl) site name
  cases site <;> exact hmake

/-- **A declaration elsewhere** spares what is compiled from the levels, and changes nothing in
their tables or in the global one. -/
theorem Elsewhere.effect (hn : w.Neat r reg) (ho : (w.catalogue r).Orderly)
    (ha : Ancestry w.definitions f levels) (h : Elsewhere w r levels c)
    (hok : (performCommand host c).execute w = (.ok v, w')) :
    (w.catalogue r).Spares (w.definitions.Reads (w.catalogue r).traits levels) (w'.catalogue r) ∧
      ∀ site name, (∀ l, site = some l → l ∈ levels) →
        (w'.catalogue r).at? site name = (w.catalogue r).at? site name := by
  cases h with
  | factory h hon ht hg =>
    have haltered := h.altered hon host
    rw [hok] at haltered
    exact ⟨Catalogue.spares_altered haltered (ho.unread_factory ht hg),
      fun site name _ => haltered.at? site name⟩
  | localTrait h hon hat hg =>
    have haltered := h.altered hon host
    rw [hok] at haltered
    exact ⟨Catalogue.spares_altered haltered (ho.unread_localTrait ha hat hg),
      fun site name _ => haltered.at? site name⟩
  | adds h hg =>
    obtain ⟨hgains, hspares⟩ := h.effect hn hok
    refine ⟨hspares _, fun site name hsite => hgains.others site name fun heq => ?_⟩
    exact absurd (hsite _ heq) hg
  | defineFactory h name model parent traits =>
    rw [performCommand, execute_bind_ok h] at hok
    obtain ⟨hspares, hat⟩ := effect_defineFactory hn hok
    exact ⟨hspares _, fun site name _ => hat site name⟩
  | childFactory h name model traits =>
    obtain ⟨_, _, hdefine⟩ := childFactory_effect h hok
    obtain ⟨hspares, hat⟩ := effect_defineFactory hn hdefine
    exact ⟨hspares _, fun site name _ => hat site name⟩
  | registerFactory h definition =>
    obtain ⟨d, x, _, _, hfree, heffect⟩ := registerFactory_command hn h hok
    rw [heffect]
    exact ⟨Catalogue.spares_enrol hfree, fun site _ _ => by cases site <;> rfl⟩

end

/-! ## 3. What a factory compiles to -/

namespace Action

variable {w w' : World} {r : RegistryId} {reg : Registry} {f : DefinitionId}

/-- **After a declaration that spares what a factory is compiled from** the factory compiles to the
same, as long as every visited reference resolves as before. -/
theorem compiles_of_spares {dynamic : List String} {vs : List Reference} (h : w.Tracked r reg)
    (ho : (w.catalogue r).Orderly) (hf : w.Registered r f) (hd : Declared True r w w')
    (hs : (w.catalogue r).Spares (w.Reads r f) (w'.catalogue r))
    (hvs : Visited w.definitions (w.catalogue r).traits f dynamic vs)
    (htarget : ∀ v ∈ vs, v.target? w'.definitions (w'.catalogue r).traits =
      v.target? w.definitions (w.catalogue r).traits) :
    Compiles r w' f dynamic (w.compile (.own reg.globals) f dynamic) := by
  obtain ⟨reg', h', ho'⟩ := World.orderly_run h ho (.single hd)
  obtain ⟨name, hname⟩ := hf
  rw [h.neat.traits_eq] at hvs htarget
  rw [h'.neat.traits_eq] at htarget
  have hsame := World.compile_eq_of_spares h.neat h'.neat ho.toFounded
    (ancestry_of_registered ho.toFounded hname) hs hvs htarget
  exact hsame ▸ compiles_of_orderly h' ho' ⟨name, hs.factories name f hname⟩ dynamic

/-- **Declarations elsewhere do not interfere.** In every world that proper declarations lead to, a
registered factory compiles with any call-time traits to one outcome. A declaration elsewhere, that
is on a factory which is none of its levels, on a trait of such a factory, or of a new factory,
leaves the outcome as it is, plan or failure. A new global trait leaves a plan as it is. And a new
trait of some factory leaves it as it is, too, unless a reference to its name was visited which
resolved above that factory's table. -/
theorem declarations_elsewhere {w₀ : World} (hstart : w₀.Neat r {})
    (horderly : (w₀.catalogue r).Orderly) (hrun : BuildingRun r w₀ w) (hf : w.Registered r f)
    (dynamic : List String) :
    ∃ vs outcome, Visited w.definitions (w.catalogue r).traits f dynamic vs ∧
      Compiles r w f dynamic outcome ∧
      ∀ c host v w', (performCommand host c).execute w = (.ok v, w') → c.Sound w →
        c.Proper w r →
        (Elsewhere w r (w.definitions.levels f) c → Compiles r w' f dynamic outcome) ∧
        (∀ text plan, AddsTrait w r none text c → outcome = .ok plan →
          Compiles r w' f dynamic (.ok plan)) ∧
        ∀ g text plan, AddsTrait w r (some g) text c → outcome = .ok plan →
          Compiles r w' f dynamic (.ok plan) ∨
            ∃ v ∈ vs, v.name = text ∧ (w.catalogue r).ResolvesAbove g v := by
  obtain ⟨reg, h, ho⟩ := World.orderly_run (World.tracked_new hstart) horderly hrun
  obtain ⟨name, hname⟩ := hf
  have ha : Ancestry (w.catalogue r).definitions f (w.definitions.levels f) :=
    ancestry_of_registered ho.toFounded hname
  obtain ⟨vs, hvs⟩ := Visited.exists_of_ancestry ho.stocked ha dynamic
  refine ⟨vs, _, hvs, compiles_of_orderly h ho ⟨name, hname⟩ dynamic, ?_⟩
  intro c host v w' hok hsound hproper
  have hspared := fun (hd : Declared True r w w') hs htarget =>
    compiles_of_spares h ho ⟨name, hname⟩ hd hs hvs htarget
  -- A reference is looked up from one of the levels, and so in the tables of some of them.
  have hlookup : ∀ v ∈ vs, ∃ levels, Ancestry (w.catalogue r).definitions v.scope levels ∧
      levels ⊆ w.definitions.levels f := by
    intro v hv
    obtain ⟨older, hscope, hsuffix⟩ := ha.of_mem (hvs.scope_mem ha hv)
    exact ⟨_, hscope, hsuffix.subset⟩
  -- A trait that has been added leaves a plan as it is, or there is a reference above its table.
  have hadds : ∀ site text plan, AddsTrait w r site text c →
      w.compile (.own reg.globals) f dynamic = .ok plan →
      Compiles r w' f dynamic (w.compile (.own reg.globals) f dynamic) ∨
        ∃ v ∈ vs, v.name = text ∧ ∃ g, site = some g ∧ (w.catalogue r).ResolvesAbove g v := by
    intro site text plan hadd hplan
    obtain ⟨hgains, hspares⟩ := hadd.effect h.neat hok
    by_cases htarget : ∀ v ∈ vs, v.target? w'.definitions (w'.catalogue r).traits =
        v.target? w.definitions (w.catalogue r).traits
    · have hstep := hadd.declares
      exact .inl (hspared (.declared hstep hsound (fun _ => hproper) hok) (hspares _) htarget)
    · push Not at htarget
      obtain ⟨v, hv, hne⟩ := htarget
      obtain ⟨levels, hlevels, _⟩ := hlookup v hv
      have hresolved := World.resolved_of_compile h.neat.definitions hplan
        (h.neat.traits_eq ▸ hvs) hv
      rw [← h.neat.traits_eq] at hresolved
      obtain ⟨t, ht⟩ := hresolved
      obtain ⟨hname, g, hg, habove⟩ :=
        hgains.resolvesAbove (hspares fun _ => True).holdsTo hlevels ht hne
      exact .inr ⟨v, hv, hname, g, hg, habove⟩
  refine ⟨fun helse => ?_, fun text plan hadd hplan => ?_, fun g text plan hadd hplan => ?_⟩
  · obtain ⟨hspares, hat⟩ := helse.effect h.neat ho ha hok
    refine hspared (helse.declared hsound (fun _ => hproper) hok) hspares fun v hv => ?_
    obtain ⟨levels, hlevels, hsub⟩ := hlookup v hv
    exact Catalogue.visible?_congr hspares.holdsTo hlevels fun site hsite =>
      hat site _ fun l hl => hsub (hsite l hl)
  · obtain hsame | ⟨_, _, _, _, hsite, _⟩ := hadds none text plan hadd hplan
    · exact hplan ▸ hsame
    · cases hsite
  · obtain hsame | ⟨v, hv, hname, _, hsite, habove⟩ := hadds (some g) text plan hadd hplan
    · exact .inl (hplan ▸ hsame)
    · obtain rfl := Option.some.inj hsite
      exact .inr ⟨v, hv, hname, habove⟩

/-- In a family a new factory and a new global trait leave the plan of a child as it is. The child
applies a trait of its parent, so a trait of that name that is its own comes before it. -/
theorem declarations_elsewhere_offspring : ∃ plan,
    Compiles ⟨0⟩ World.offspring ⟨2⟩ ["v"] (.ok plan) ∧
    Compiles ⟨0⟩ (World.offspring.after
      (.defineFactory (some (.registry ⟨0⟩)) (.text "other") .null .null none)) ⟨2⟩ ["v"]
      (.ok plan) ∧
    Compiles ⟨0⟩ (World.offspring.after (.defineTrait (some (.registry ⟨0⟩)) (.text "v"))) ⟨2⟩
      ["v"] (.ok plan) ∧
    ¬ Compiles ⟨0⟩ (World.offspring.after (.localTrait (.builder ⟨2⟩) (.text "v"))) ⟨2⟩ ["v"]
      (.ok plan) ∧
    ∃ v : Reference, v.name = "v" ∧ (World.offspring.catalogue ⟨0⟩).ResolvesAbove ⟨2⟩ v := by
  obtain ⟨vs, outcome, _, hcompiles, hafter⟩ := declarations_elsewhere World.neat_fresh
    World.orderly_fresh World.run_offspring (f := ⟨2⟩) ⟨"child", by decide +kernel⟩ ["v"]
  have hcomes := hcompiles.planOf_eq (.text "child") (some (.text "v")) (by decide +kernel)
  -- The child has a plan with one attribute, which its parent's trait declares.
  have hcount : (planOf ⟨0⟩ (.text "child") (some (.text "v")) World.offspring).toOption.join.map
      (·.attributes.length) = some 1 := by decide +kernel
  rw [hcomes] at hcount
  obtain ⟨plan, rfl⟩ : ∃ plan, outcome = .ok plan := by
    cases outcome with
    | error e => cases hcount
    | ok plan => exact ⟨plan, rfl⟩
  have hshadowed : ¬ Compiles ⟨0⟩
      (World.offspring.after (.localTrait (.builder ⟨2⟩) (.text "v"))) ⟨2⟩ ["v"] (.ok plan) := by
    intro h
    have hcomes' := h.planOf_eq (.text "child") (some (.text "v")) (by decide +kernel)
    have hnone : (planOf ⟨0⟩ (.text "child") (some (.text "v"))
        (World.offspring.after (.localTrait (.builder ⟨2⟩) (.text "v")))).toOption.join.map
        (·.attributes.length) = some 0 := by decide +kernel
    rw [hcomes'] at hnone
    cases hcount.symm.trans hnone
  obtain ⟨_, hfactory⟩ := World.exists_execute_after (w := World.offspring) (c := .defineFactory
    (some (.registry ⟨0⟩)) (.text "other") .null .null none) (by decide +kernel)
  obtain ⟨_, hglobal⟩ := World.exists_execute_after (w := World.offspring)
    (c := .defineTrait (some (.registry ⟨0⟩)) (.text "v")) (by decide +kernel)
  obtain ⟨_, hlocal⟩ := World.exists_execute_after (w := World.offspring)
    (c := .localTrait (.builder ⟨2⟩) (.text "v")) (by decide +kernel)
  have hon : World.offspring.BuildsOn ⟨0⟩ ⟨2⟩ (.builder ⟨2⟩) :=
    World.buildsOn_of_builder (by decide +kernel)
  obtain ⟨helse, _, _⟩ := hafter _ _ _ _ hfactory trivial fun _ hp => nomatch hp
  obtain ⟨_, hadd, _⟩ := hafter _ _ _ _ hglobal trivial trivial
  obtain ⟨_, _, hshadow⟩ := hafter _ _ _ _ hlocal trivial trivial
  refine ⟨plan, hcompiles, helse (.defineFactory (by rfl) _ _ _ _),
    hadd "v" plan (.defined (by rfl) rfl) rfl, hshadowed, ?_⟩
  obtain ⟨v, _, hname, habove⟩ :=
    (hshadow ⟨2⟩ "v" plan (.declared hon rfl) rfl).resolve_left hshadowed
  exact ⟨v, hname, habove⟩

end Action

end TraitFactory
