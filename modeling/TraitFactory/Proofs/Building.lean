import TraitFactory.Proofs.Registering
import TraitFactory.Proofs.Runs

/-!
# Runs of declarations

A run of declarations on a registry is made of declarations that succeed, of definitions that are
made by hand, and of public steps that change nothing which compilations read. *Sound* declarations
register only what may be registered; *proper* ones register factories only under parents that are
registered, and each trait in one table only. Sound runs keep the catalogue of the registry founded,
and proper ones keep it orderly.
-/

namespace TraitFactory

/-! ## 1. Sound and proper declarations -/

namespace World

/-- The definition that a value is, by itself or as a builder's. -/
def meant? (w : World) : Value → Option DefinitionId
  | .definition d => some d
  | .builder b => w.built? b
  | _ => none

/-- A factory that is registered in a registry of a world. -/
def Registered (w : World) (r : RegistryId) (d : DefinitionId) : Prop :=
  ∃ name, (w.catalogue r).factories.get? name = some d

end World

namespace Command

/-- **What is registered is there**: as a factory it is one, and a factory that is made by hand has
a factory for its parent, if it has one. -/
def Sound (w : World) : Command → Prop
  | .registerFactory _ definition =>
    ∀ d, w.meant? definition = some d → ∃ t, w.definitions.template? d = some t
  | .registerTrait _ _ _ definition =>
    ∀ d, w.meant? definition = some d → ∃ x, w.definitions.get? d = some x
  | .newFactory _ parent _ =>
    ∀ d, w.meant? parent = some d → ∃ t, w.definitions.template? d = some t
  | _ => True

/-- **A declaration that keeps a registry in order**: a parent that is given as a definition is
registered, and a trait that is registered by hand stands in no table yet. So a builder that was
kept from before a reset makes no children. -/
def Proper (w : World) (r : RegistryId) : Command → Prop
  | .defineFactory _ _ _ parent _ => ∀ p, parent = .definition p → w.Registered r p
  | .childFactory on _ _ _ => ∀ p, w.BuildsOn r p on → w.Registered r p
  | .registerFactory _ definition => ∀ d t p, w.meant? definition = some d →
    w.definitions.template? d = some t → t.parent = .definition p → w.Registered r p
  | .registerTrait _ _ _ definition => ∀ d, w.meant? definition = some d →
    w.definitions.template? d = none ∧ ∀ site name, (w.catalogue r).at? site name ≠ some d
  | _ => True

/-- A command that makes a definition which no registry knows yet. -/
inductive MakesLoose : Command → Prop
  | newTrait (name : String) : MakesLoose (.newTrait (.text name))
  | newFactory (name : String) (parent model : Value) :
      MakesLoose (.newFactory (.text name) parent model)

end Command

/-- **A step of declarations**, which is proper where that is asked for. -/
inductive Declared (proper : Prop) (r : RegistryId) : World → World → Prop
  | declared {w w' : World} {c : Command} (h : Declares w r c) (hsound : c.Sound w)
      (hproper : proper → c.Proper w r) {host : Host} {v : Value}
      (hok : (Action.performCommand host c).execute w = (.ok v, w')) : Declared proper r w w'
  | applied {w w' : World} {on traits v : Value} (h : w.Builds r on) {host : Host}
      (hok : (Action.performCommand host (.apply on traits)).execute w = (.ok v, w')) :
      Declared proper r w w'
  | made {w w' : World} {c : Command} (h : c.MakesLoose) (hsound : c.Sound w) {host : Host}
      {v : Value} (hok : (Action.performCommand host c).execute w = (.ok v, w')) :
      Declared proper r w w'
  | idle {w w' : World} (h : Step r w w') (hsame : w'.catalogue r = w.catalogue r) :
      Declared proper r w w'

/-- **A run of sound declarations** on a registry, of any length. -/
def DeclaringRun (r : RegistryId) : World → World → Prop :=
  Relation.ReflTransGen (Declared False r)

/-- **A run of proper declarations** on a registry, of any length. -/
def BuildingRun (r : RegistryId) : World → World → Prop := Relation.ReflTransGen (Declared True r)

/-! ## 2. The deeds of declarations -/

namespace Action

variable {w w' : World} {r : RegistryId} {reg : Registry} {v : Value} {host : Host}

theorem meant_of_execute {definition : Value} {d : DefinitionId}
    (h : (definitionOf definition).execute w = (.ok d, w')) :
    w' = w ∧ w.meant? definition = some d := by
  unfold definitionOf at h
  split at h
  · cases h
    exact ⟨rfl, rfl⟩
  · rename_i b
    obtain ⟨builder, w₁, hget, hrequire⟩ := ok_of_execute_bind h
    obtain ⟨_, _, hworld, hfound⟩ := ok_of_execute_bind hget
    cases hworld
    rcases hb : w.builder? b with _ | ⟨value, registry, forFactory⟩ <;> rw [hb] at hfound
    · cases hfound
    · cases hfound
      -- Only a definition is one; anything else is refused.
      cases value with
      | definition e =>
        cases hrequire
        exact ⟨rfl, by rw [World.meant?, World.built?, hb]⟩
      | _ => cases hrequire
  · cases h

/-- A command that registers a factory registers the definition that its argument means. -/
theorem registerFactory_command (hn : w.Neat r reg) {registry : Option Value}
    (hr : w.Means r registry) {definition : Value}
    (hok : (performCommand host (.registerFactory registry definition)).execute w = (.ok v, w')) :
    ∃ d x, w.meant? definition = some d ∧ w.definitions.get? d = some x ∧
      (w.catalogue r).factories.get? x.name = none ∧
      w'.catalogue r = (w.catalogue r).enrol x.name d := by
  rw [performCommand, execute_bind_ok hr] at hok
  obtain ⟨d, w₁, hread, hrest⟩ := ok_of_execute_bind hok
  obtain ⟨rfl, hmeant⟩ := meant_of_execute hread
  obtain ⟨_, w₂, hregister, hreturn⟩ := ok_of_execute_bind hrest
  cases hreturn
  obtain ⟨x, hx, heffect⟩ := registerFactory_effect hn hregister
  exact ⟨d, x, hmeant, hx, heffect⟩

theorem registerTrait_command (hn : w.Neat r reg) {registry : Option Value}
    (hr : w.Means r registry) {scope name definition : Value}
    (hok : (performCommand host (.registerTrait registry scope name definition)).execute w =
      (.ok v, w')) :
    ∃ d site text, w.meant? definition = some d ∧
      (scopeFactory r scope).execute w = (.ok site, w) ∧ name.name? = some text ∧
      (w.catalogue r).at? site text = none ∧
      w'.catalogue r = (w.catalogue r).place site text d := by
  rw [performCommand, execute_bind_ok hr] at hok
  obtain ⟨d, w₁, hread, hrest⟩ := ok_of_execute_bind hok
  obtain ⟨rfl, hmeant⟩ := meant_of_execute hread
  obtain ⟨_, w₂, hregister, hreturn⟩ := ok_of_execute_bind hrest
  cases hreturn
  obtain ⟨site, text, heffect⟩ := registerTrait_effect hn hregister
  exact ⟨d, site, text, hmeant, heffect⟩

/-- Registered factories are factories under their own names. -/
theorem parent_of_registered (hf : (w.catalogue r).Founded) {p : DefinitionId}
    (h : w.Registered r p) : ∃ t, w.definitions.template? p = some t ∧
      (w.catalogue r).factories.get? (w.definitions.nameOf p) = some p := by
  obtain ⟨name, hp⟩ := h
  obtain ⟨x, t, hx, rfl, ht⟩ := hf.factories name p hp
  have hx : w.definitions.get? p = some x := hx
  refine ⟨t, Option.bind_eq_some_iff.mpr ⟨x, hx, ht⟩, ?_⟩
  rw [Definitions.nameOf, hx]
  exact hp

theorem deed_defineFactory {proper : Prop} (hn : w.Neat r reg) (hf : (w.catalogue r).Founded)
    {name model parent : Value} {traits : Option Value}
    (hproper : proper → ∀ p, parent = .definition p → w.Registered r p)
    (h : (defineFactory r name model parent traits).execute w = (.ok v, w')) :
    Catalogue.Deed proper (w.catalogue r) (w'.catalogue r) := by
  obtain ⟨text, applied, parent', _, hparent, hfree, heffect⟩ := defineFactory_effect hn h
  obtain ⟨_, hparent⟩ := parent_of_execute hn hparent
  rw [heffect]
  refine .defined ?_ hfree
  -- A parent that was given by its name is registered under it.
  cases parent' with
  | null => exact .inl rfl
  | definition p =>
    obtain ⟨hgiven, t, ht⟩ | ⟨name', hregistered⟩ := hparent
    · refine .inr ⟨p, t, rfl, ht, fun hp => ?_⟩
      obtain ⟨_, _, hregistered⟩ := parent_of_registered hf (hproper hp p hgiven)
      exact hregistered
    · obtain ⟨t, ht, hregistered⟩ :=
        parent_of_registered hf ⟨name', (hn.factory?_eq name').trans hregistered⟩
      exact .inr ⟨p, t, rfl, ht, fun _ => hregistered⟩
  | _ => exact hparent.elim

/-- What a builder declares on must be a definition. -/
theorem buildsOn_of_execute {on : Value} (hon : w.Builds r on) {d : DefinitionId}
    (h : (declaredOn on).execute w = (.ok d, w')) : w.BuildsOn r d on := by
  obtain ⟨b, builder, rfl, hb, hr⟩ := hon
  rw [declaredOn, execute_bind_ok (execute_getBuilder hb)] at h
  unfold requireDefinition at h
  split at h
  · rename_i hd
    cases h
    exact ⟨b, builder, rfl, hb, hr, hd⟩
  · cases h

/-- A declaration on what a builder builds begins by asking for it. -/
theorem exists_buildsOn {c : Command} {on : Value} (h : DeclaresOn on c) (hon : w.Builds r on)
    (hok : (performCommand host c).execute w = (.ok v, w')) : ∃ d, w.BuildsOn r d on := by
  cases h <;>
    · obtain ⟨d, w₁, hread, _⟩ := ok_of_execute_bind hok
      exact ⟨d, buildsOn_of_execute hon hread⟩

theorem deed_declaresOn {proper : Prop} {c : Command} {on : Value} (h : DeclaresOn on c)
    (hon : w.Builds r on) (hok : (performCommand host c).execute w = (.ok v, w')) :
    Catalogue.Deed proper (w.catalogue r) (w'.catalogue r) := by
  obtain ⟨d, hd⟩ := exists_buildsOn h hon hok
  have haltered := h.altered hd host
  rw [hok] at haltered
  exact .altered haltered

/-- **Every declaration that succeeds is a deed.** -/
theorem deed_command {proper : Prop} (hn : w.Neat r reg) (hf : (w.catalogue r).Founded)
    {c : Command} (h : Declares w r c) (hsound : c.Sound w) (hproper : proper → c.Proper w r)
    (hok : (performCommand host c).execute w = (.ok v, w')) :
    Catalogue.Deed proper (w.catalogue r) (w'.catalogue r) := by
  cases h with
  | defineFactory hr name model parent traits =>
    rw [performCommand, execute_bind_ok hr] at hok
    exact deed_defineFactory hn hf hproper hok
  | defineTrait hr name =>
    rw [performCommand, execute_bind_ok hr] at hok
    obtain ⟨text, _, _, heffect⟩ := defineTrait_effect hn hok
    exact heffect ▸ .placed
  | childFactory hon name model traits =>
    obtain ⟨parent, hparent, hdefine⟩ := childFactory_effect hon hok
    exact deed_defineFactory hn hf (fun hp p hgiven => hproper hp p ((hparent p).mp hgiven)) hdefine
  | localTrait hon name =>
    obtain ⟨site, text, _, _, _, heffect⟩ := localTrait_effect hn hon hok
    exact heffect ▸ .placed
  | set hon name value computed => exact deed_declaresOn (.set name value computed) hon hok
  | associate hon name factory traits strategy overrides =>
    exact deed_declaresOn (.associate name factory traits strategy overrides) hon hok
  | initializeWith hon fn => exact deed_declaresOn (.initializeWith fn) hon hok
  | toCreate hon fn => exact deed_declaresOn (.toCreate fn) hon hok
  | callback hon event fn => exact deed_declaresOn (.callback event fn) hon hok
  | callbackMethod hon event fn => exact deed_declaresOn (.callbackMethod event fn) hon hok
  | registerFactory hr definition =>
    obtain ⟨d, x, hmeant, hx, hfree, heffect⟩ := registerFactory_command hn hr hok
    obtain ⟨t, ht⟩ := hsound d hmeant
    have htemplate : x.template = some t := by
      rwa [Definitions.template?, hx, Option.bind_some] at ht
    refine heffect ▸ .enrolled hx htemplate hfree fun hp p hparent => ?_
    obtain ⟨_, _, hregistered⟩ := parent_of_registered hf (hproper hp d t p hmeant ht hparent)
    exact hregistered
  | registerTrait hr scope name definition =>
    obtain ⟨d, site, text, hmeant, _, _, _, heffect⟩ := registerTrait_command hn hr hok
    obtain ⟨x, hx⟩ := hsound d hmeant
    refine heffect ▸ .put hx fun hp => ?_
    obtain ⟨htrait, hfresh⟩ := hproper hp d hmeant
    rw [Definitions.template?, hx, Option.bind_some] at htrait
    exact ⟨htrait, hfresh⟩
  | touch hr =>
    obtain ⟨_, w₁, htouch, hreturn⟩ := ok_of_execute_bind hok
    cases hreturn
    rw [execute_bind_ok hr] at htouch
    cases htouch
    -- Nothing that is compiled is another for it.
    exact World.catalogue_touch ▸ .altered (.refl ⟨0⟩ _)
  | resetRegistry hr =>
    obtain ⟨_, w₁, hreset, hreturn⟩ := ok_of_execute_bind hok
    cases hreturn
    rw [execute_bind_ok hr] at hreset
    exact resetRegistry_effect hn hreset ▸ .forgotten

/-- What is made by hand is made, and nothing else happens. -/
theorem deed_loose {proper : Prop} {c : Command} (h : c.MakesLoose) (hsound : c.Sound w)
    (hok : (performCommand host c).execute w = (.ok v, w')) :
    Catalogue.Deed proper (w.catalogue r) (w'.catalogue r) := by
  cases h with
  | newTrait name =>
    have hmake : (performCommand host (.newTrait (.text name))).execute w =
        (.ok (.definition w.definitions.next), w.making (.newTrait name)) := rfl
    cases hmake.symm.trans hok
    exact .made ((w.catalogue r).makes_newTrait name)
  | newFactory name parent model =>
    have hmake : ∀ parent : Value, (parent = .null ∨ ∃ p t, parent = .definition p ∧
        w.definitions.template? p = some t) →
        Catalogue.Deed proper (w.catalogue r)
          ((w.making (.newFactory name [] parent model)).catalogue r) := fun parent hparent =>
      .made (Catalogue.makes_newFactory hparent name [] model)
    -- Once the parent is known the factory is made.
    have hrest : ∀ {parent' : Value} {w₁ : World}, (do
        return .definition (← newDefinition (.newFactory name [] parent' model)) :
          Action Value).execute w₁ = (.ok v, w') →
        w'.catalogue r = (w₁.making (.newFactory name [] parent' model)).catalogue r := by
      intro parent' w₁ h
      obtain ⟨_, _, hpush, hreturn⟩ := ok_of_execute_bind h
      cases hpush
      cases hreturn
      rfl
    obtain ⟨_, _, hgiven, hok⟩ := ok_of_execute_bind hok
    cases hgiven
    dsimp only at hok
    split at hok
    · exact hrest hok ▸ hmake .null (.inl rfl)
    · obtain ⟨parent', w₁, hread, hnew⟩ := ok_of_execute_bind hok
      rw [← bind_pure_comp] at hread
      obtain ⟨p, w₂, hdefinition, hreturn⟩ := ok_of_execute_bind hread
      obtain ⟨rfl, hmeant⟩ := meant_of_execute hdefinition
      cases hreturn
      obtain ⟨t, ht⟩ := hsound p hmeant
      exact hrest hnew ▸ hmake (.definition p) (.inr ⟨p, t, rfl, ht⟩)

theorem deed_of_declared {proper : Prop} (hn : w.Neat r reg) (hf : (w.catalogue r).Founded)
    (h : Declared proper r w w') : Catalogue.Deed proper (w.catalogue r) (w'.catalogue r) := by
  cases h with
  | declared h hsound hproper hok => exact deed_command hn hf h hsound hproper hok
  | applied hon hok => exact deed_declaresOn (.apply _) hon hok
  | made h hsound hok => exact deed_loose h hsound hok
  | idle _ hsame => exact hsame ▸ .altered (.refl ⟨0⟩ _)

/-- Steps of declarations are public steps. -/
theorem step_of_declared {proper : Prop} (h : Declared proper r w w') : Step r w w' := by
  cases h with
  | @declared c h _ _ host v hok =>
    have hstep := Steady.declared h host
    rw [hok] at hstep
    exact .steady hstep
  | applied hon hok => exact .steady (.applied hon hok)
  | @made c h _ host v hok =>
    have hkeeps : Keeps (.aside r) (performCommand host c) := by
      cases h with
      | newTrait name => exact keeps_newTrait name
      | newFactory name parent model => exact keeps_newFactory name parent model
    have haside := hkeeps w
    rw [hok] at haside
    exact .steady (.aside haside)
  | idle hs _ => exact hs

end Action

/-! ## 3. What runs of declarations preserve -/

namespace World

variable {r : RegistryId} {w₀ w : World} {reg : Registry} {proper : Prop}

/-- **Throughout a run of sound declarations the catalogue is founded**, and the cache is right. -/
theorem founded_run (h₀ : w₀.Tracked r reg) (hf₀ : (w₀.catalogue r).Founded)
    (hrun : Relation.ReflTransGen (Declared proper r) w₀ w) :
    ∃ reg, w.Tracked r reg ∧ (w.catalogue r).Founded := by
  induction hrun with
  | refl => exact ⟨reg, h₀, hf₀⟩
  | tail _ hs ih =>
    obtain ⟨reg₁, h₁, hf₁⟩ := ih
    obtain ⟨reg₂, h₂⟩ := Action.tracked_step h₁ (Action.step_of_declared hs)
    exact ⟨reg₂, h₂, hf₁.deed (Action.deed_of_declared h₁.neat hf₁ hs)⟩

/-- **Throughout a run of proper declarations the catalogue is orderly.** -/
theorem orderly_run (h₀ : w₀.Tracked r reg) (ho₀ : (w₀.catalogue r).Orderly)
    (hrun : BuildingRun r w₀ w) : ∃ reg, w.Tracked r reg ∧ (w.catalogue r).Orderly := by
  induction hrun with
  | refl => exact ⟨reg, h₀, ho₀⟩
  | tail _ hs ih =>
    obtain ⟨reg₁, h₁, ho₁⟩ := ih
    obtain ⟨reg₂, h₂⟩ := Action.tracked_step h₁ (Action.step_of_declared hs)
    exact ⟨reg₂, h₂,
      ho₁.deed trivial (Action.deed_of_declared h₁.neat ho₁.toFounded hs)⟩

/-- In an orderly catalogue parents are known, so the registry is coherent. -/
theorem parentsKnown_of_orderly (hn : w.Neat r reg) (h : (w.catalogue r).Orderly) :
    w.ParentsKnown r := by
  intro reg' hreg' name f t p hf ht hp
  obtain rfl := Option.some.inj (hn.registry.symm.trans hreg')
  rw [← hn.factory?_eq] at hf ⊢
  exact h.parents name f t p hf ht hp

end World

/-- Where there is nothing yet, all is in order. -/
theorem Catalogue.orderly_empty {c : Catalogue} (hd : c.definitions = ∅) (hf : c.factories = ∅)
    (ht : c.traits = ∅) : c.Orderly := by
  have hget : ∀ d, c.definitions.get? d = none := fun d => by rw [hd]; rfl
  have hat : ∀ site name, c.at? site name = none := by
    intro site name
    cases site with
    | none => rw [at?, ht]; rfl
    | some g => rw [at?, hget]; rfl
  have hfactory : ∀ name, c.factories.get? name = none := fun name => by rw [hf]; rfl
  refine ⟨⟨fun d t h => ?_, fun name f h => ?_, fun site name t h => ?_⟩, fun site name t h => ?_,
    fun site _ name _ t h _ => ?_, fun name f _ _ h _ _ => ?_⟩
  · rw [Definitions.template?, hget] at h
    cases h
  · rw [hfactory] at h
    cases h
  all_goals first
    | rw [hat] at h; cases h
    | rw [hfactory] at h; cases h

/-- A session starts in order. -/
theorem World.orderly_fresh : (World.fresh.catalogue ⟨0⟩).Orderly :=
  Catalogue.orderly_empty rfl rfl rfl

/-! ## 4. Runs by hand -/

namespace World

variable {r : RegistryId} {w₀ w : World} {proper : Prop}

theorem exists_execute_after {c : Command}
    (hok : ((Action.performCommand default c).execute w).1.isOk = true) :
    ∃ v, (Action.performCommand default c).execute w = (.ok v, w.after c) := by
  rcases hexec : (Action.performCommand default c).execute w with ⟨e | v, w'⟩ <;> rw [hexec] at hok
  · cases hok
  · exact ⟨v, by rw [after, hexec]⟩

theorem exists_error_after {c : Command}
    (hfails : ((Action.performCommand default c).execute w).1.isOk = false) :
    ∃ e, (Action.performCommand default c).execute w = (.error e, w.after c) := by
  rcases hexec : (Action.performCommand default c).execute w with ⟨e | v, w'⟩ <;>
    rw [hexec] at hfails
  · exact ⟨e, by rw [after, hexec]⟩
  · cases hfails

/-- A run of declarations goes on with one that succeeds. -/
theorem declared_after (h : Relation.ReflTransGen (Declared proper r) w₀ w) {c : Command}
    (hc : Declares w r c) (hsound : c.Sound w) (hproper : proper → c.Proper w r)
    (hok : ((Action.performCommand default c).execute w).1.isOk = true) :
    Relation.ReflTransGen (Declared proper r) w₀ (w.after c) := by
  obtain ⟨_, hexec⟩ := exists_execute_after hok
  exact h.tail (.declared hc hsound hproper hexec)

theorem applied_after (h : Relation.ReflTransGen (Declared proper r) w₀ w) {on traits : Value}
    (hon : w.Builds r on)
    (hok : ((Action.performCommand default (.apply on traits)).execute w).1.isOk = true) :
    Relation.ReflTransGen (Declared proper r) w₀ (w.after (.apply on traits)) := by
  obtain ⟨_, hexec⟩ := exists_execute_after hok
  exact h.tail (.applied hon hexec)

theorem buildsOn_of_builder {b : BuilderId} {d : DefinitionId}
    (h : (w.builder? b).map (fun builder => (builder.registry, builder.definition)) =
      some (.registry r, .definition d)) : w.BuildsOn r d (.builder b) := by
  obtain ⟨builder, hb, heq⟩ := Option.map_eq_some_iff.mp h
  obtain ⟨hr, hd⟩ := Prod.mk.inj heq
  exact ⟨b, builder, rfl, hb, hr, hd⟩

/-- What a builder builds is registered when it stands in the table of factories. -/
theorem registered_of_builder {b : BuilderId} {d : DefinitionId} (name : String)
    (hb : (w.builder? b).map (·.definition) = some (.definition d))
    (hd : (w.catalogue r).factories.get? name = some d) {p : DefinitionId}
    (hp : w.BuildsOn r p (.builder b)) : w.Registered r p := by
  obtain ⟨_, builder, ⟨⟩, hget, _, hdefinition⟩ := hp
  rw [hget, Option.map_some, hdefinition] at hb
  obtain rfl := Value.definition.inj (Option.some.inj hb)
  exact ⟨name, hd⟩

/-- A factory with a trait of its own, and a child that applies this trait and has nothing else. -/
def offspring : World :=
  (((fresh.after (.defineFactory (some (.registry ⟨0⟩)) (.text "base") .null .null none)).after
    (.localTrait (.builder ⟨0⟩) (.text "v"))).after
    (.set (.builder ⟨1⟩) (.text "rank") (some (.int 1)) .null)).after
    (.childFactory (.builder ⟨0⟩) (.text "child") .null (some (.text "v")))

theorem run_offspring : BuildingRun ⟨0⟩ fresh offspring := by
  refine declared_after ?_ (.childFactory (builds_of_builder (by decide +kernel)) _ _ _) trivial
    (fun _ p hp => registered_of_builder (d := ⟨0⟩) "base" (by decide +kernel) (by decide +kernel)
      hp) (by decide +kernel)
  refine declared_after ?_ (.set (builds_of_builder (by decide +kernel)) _ _ _) trivial
    (fun _ => trivial) (by decide +kernel)
  refine declared_after ?_ (.localTrait (builds_of_builder (by decide +kernel)) _) trivial
    (fun _ => trivial) (by decide +kernel)
  exact declared_after .refl (.defineFactory (by rfl) _ _ _ _) trivial
    (fun _ p hp => by cases hp) (by decide +kernel)

end World

end TraitFactory
