import TraitFactory.Proofs.Building

/-!
# Registered parents

A factory that is defined under a parent given by its name has a registered one. A parent that is
given as a definition is taken as it is, registered or not: so a builder that is kept across a reset
makes children of a factory that the registry no longer knows. Nothing registers that factory again,
and only the next reset forgets the child. The parents of all registered factories are registered,
then, just when every parent that was given since the last reset was.
-/

namespace TraitFactory

/-! ## 1. Parents that a catalogue knows -/

namespace Catalogue

variable {c c' : Catalogue}

/-- **A parent that a catalogue knows**: if it is a definition, it is the registered one of its
name. -/
def Knows (c : Catalogue) (parent : Value) : Prop :=
  ∀ p, parent = .definition p → c.factories.get? (c.definitions.nameOf p) = some p

/-- The parents of registered factories are known. -/
def ParentsKnown (c : Catalogue) : Prop :=
  ∀ name f t, c.factories.get? name = some f → c.definitions.template? f = some t →
    c.Knows t.parent

/-- **Registered factories are there**, under their own names, and so are their parents. -/
structure Rooted (c : Catalogue) : Prop where
  names : ∀ name f, c.factories.get? name = some f →
    ∃ x, c.definitions.get? f = some x ∧ x.name = name
  parents : ∀ name f t p, c.factories.get? name = some f → c.definitions.template? f = some t →
    t.parent = .definition p → ∃ x, c.definitions.get? p = some x

theorem Rooted.nameOf (h : c.Rooted) {name : String} {f : DefinitionId}
    (hf : c.factories.get? name = some f) : c.definitions.nameOf f = name := by
  obtain ⟨x, hx, rfl⟩ := h.names name f hf
  rw [Definitions.nameOf, hx]
  rfl

/-- A catalogue that has the factories of another one, in a store that holds on to its
definitions. -/
structure Spared (c c' : Catalogue) : Prop where
  factories : c'.factories = c.factories
  definitions : c.definitions.HoldsTo c'.definitions

theorem Spared.trans {c'' : Catalogue} (h : c.Spared c') (h' : c'.Spared c'') : c.Spared c'' where
  factories := h'.factories.trans h.factories
  definitions d x hx := by
    obtain ⟨x', hx', hname, hparent⟩ := h.definitions d x hx
    obtain ⟨x'', hx'', hname', hparent'⟩ := h'.definitions d x' hx'
    exact ⟨x'', hx'', hname'.trans hname, hparent'.trans hparent⟩

theorem spared_make (c : Catalogue) (x : Definition) : c.Spared (c.make x) :=
  ⟨rfl, holdsTo_make c x⟩

theorem spared_place (c : Catalogue) (site : Option DefinitionId) (name : String)
    (t : DefinitionId) : c.Spared (c.place site name t) :=
  ⟨by cases site <;> rfl, holdsTo_place c site name t⟩

theorem Rooted.spared (h : c.Rooted) (hs : c.Spared c') : c'.Rooted where
  names name f hf := by
    rw [hs.factories] at hf
    obtain ⟨x, hx, hname⟩ := h.names name f hf
    obtain ⟨x', hx', hname', _⟩ := hs.definitions f x hx
    exact ⟨x', hx', hname'.trans hname⟩
  parents name f t p hf ht hp := by
    rw [hs.factories] at hf
    obtain ⟨x, hx, _⟩ := h.names name f hf
    obtain ⟨t₀, ht₀, hparent⟩ := hs.definitions.template?_before hx ht
    obtain ⟨y, hy⟩ := h.parents name f t₀ p hf ht₀ (hparent ▸ hp)
    obtain ⟨y', hy', _⟩ := hs.definitions p y hy
    exact ⟨y', hy'⟩

/-- A parent is known as before. -/
theorem Rooted.knows_spared (h : c.Rooted) (hs : c.Spared c') (parent : Value) :
    c'.Knows parent ↔ c.Knows parent := by
  have hname : ∀ {name p}, c.factories.get? name = some p →
      c'.definitions.nameOf p = c.definitions.nameOf p := by
    intro name p hp
    obtain ⟨x, hx, _⟩ := h.names name p hp
    exact hs.definitions.nameOf hx
  constructor <;> intro hknows p hp
  · have hregistered := hknows p hp
    rw [hs.factories] at hregistered
    rwa [hname hregistered] at hregistered
  · have hregistered := hknows p hp
    rw [hs.factories, hname hregistered]
    exact hregistered

theorem Rooted.parentsKnown_spared (h : c.Rooted) (hs : c.Spared c') :
    c'.ParentsKnown ↔ c.ParentsKnown := by
  constructor <;> intro hknown name f t hf ht
  · obtain ⟨t', ht', hparent⟩ := hs.definitions.template? ht
    rw [← hparent, ← h.knows_spared hs]
    exact hknown name f t' (hs.factories ▸ hf) ht'
  · rw [hs.factories] at hf
    obtain ⟨x, hx, _⟩ := h.names name f hf
    obtain ⟨t₀, ht₀, hparent⟩ := hs.definitions.template?_before hx ht
    rw [hparent, h.knows_spared hs]
    exact hknown name f t₀ hf ht₀

/-! ## 2. A factory is defined, or all are forgotten -/

section Defined

variable {text : String} {applied : List String} {parent model : Value}

/-- A catalogue in which a factory has been made and registered. -/
def defining (c : Catalogue) (text : String) (applied : List String) (parent model : Value) :
    Catalogue :=
  (c.make (.newFactory text applied parent model)).enrol text c.definitions.next

theorem of_get?_defining {name : String} {f : DefinitionId}
    (hf : (c.defining text applied parent model).factories.get? name = some f) :
    (name = text ∧ f = c.definitions.next) ∨ (name ≠ text ∧ c.factories.get? name = some f) := by
  have hf : (c.factories.insert text c.definitions.next).get? name = some f := hf
  by_cases hname : name = text
  · subst hname
    rw [Table.get?_insert_self] at hf
    exact .inl ⟨rfl, (Option.some.inj hf).symm⟩
  · rw [Table.get?_insert_of_ne _ _ hname] at hf
    exact .inr ⟨hname, hf⟩

/-- What is registered stays registered, and nothing but the new factory is registered besides. -/
theorem get?_defining_iff (hfree : c.factories.get? text = none) {name : String}
    {f : DefinitionId} (hf : f ≠ c.definitions.next) :
    (c.defining text applied parent model).factories.get? name = some f ↔
      c.factories.get? name = some f := by
  have hinsert : (c.defining text applied parent model).factories =
      c.factories.insert text c.definitions.next := rfl
  rw [hinsert]
  by_cases hname : name = text
  · subst hname
    rw [Table.get?_insert_self, hfree]
    exact ⟨fun h => absurd (Option.some.inj h).symm hf, fun h => nomatch h⟩
  · rw [Table.get?_insert_of_ne _ _ hname]

theorem ne_next_of_get? {p : DefinitionId} {x : Definition} (hx : c.definitions.get? p = some x) :
    p ≠ c.definitions.next := by
  rintro rfl
  rw [Definitions.get?_next] at hx
  cases hx

/-- **A parent that is there is known as before** when a factory has been defined: the new one is
not it, and takes no name from it. -/
theorem knows_defining (hfree : c.factories.get? text = none) {v : Value}
    (hv : ∀ p, v = .definition p → ∃ x, c.definitions.get? p = some x) :
    (c.defining text applied parent model).Knows v ↔ c.Knows v := by
  have hsame : ∀ p, v = .definition p →
      ((c.defining text applied parent model).factories.get?
          ((c.defining text applied parent model).definitions.nameOf p) = some p ↔
        c.factories.get? (c.definitions.nameOf p) = some p) := by
    intro p hp
    obtain ⟨x, hx⟩ := hv p hp
    have hname : (c.defining text applied parent model).definitions.nameOf p =
        c.definitions.nameOf p := (holdsTo_make c _).nameOf hx
    rw [hname]
    exact get?_defining_iff hfree (ne_next_of_get? hx)
  exact ⟨fun h p hp => (hsame p hp).mp (h p hp), fun h p hp => (hsame p hp).mpr (h p hp)⟩

theorem template?_defining_next :
    (c.defining text applied parent model).definitions.template? c.definitions.next =
      some { parent := parent, model := model } :=
  Option.bind_eq_some_iff.mpr ⟨_, get?_make_next c _, rfl⟩

theorem Rooted.defining (h : c.Rooted)
    (hparent : ∀ p, parent = .definition p → ∃ x, c.definitions.get? p = some x) :
    (c.defining text applied parent model).Rooted where
  names name f hf := by
    obtain ⟨rfl, rfl⟩ | ⟨_, hf⟩ := of_get?_defining hf
    · exact ⟨_, get?_make_next c _, rfl⟩
    · obtain ⟨x, hx, hname⟩ := h.names name f hf
      exact ⟨x, (Definitions.growsTo_push _ _).2 f x hx, hname⟩
  parents name f t p hf ht hp := by
    have hthere : ∃ x, c.definitions.get? p = some x := by
      obtain ⟨rfl, rfl⟩ | ⟨_, hf⟩ := of_get?_defining hf
      · cases template?_defining_next.symm.trans ht
        exact hparent p hp
      · obtain ⟨x, hx, _⟩ := h.names name f hf
        obtain ⟨t₀, ht₀, hsame⟩ := (holdsTo_make c _).template?_before hx ht
        exact h.parents name f t₀ p hf ht₀ (hsame ▸ hp)
    obtain ⟨x, hx⟩ := hthere
    exact ⟨x, (Definitions.growsTo_push _ _).2 p x hx⟩

/-- **Defining a factory keeps parents known just when its own parent is.** -/
theorem Rooted.parentsKnown_defining (h : c.Rooted) (hfree : c.factories.get? text = none)
    (hparent : ∀ p, parent = .definition p → ∃ x, c.definitions.get? p = some x) :
    (c.defining text applied parent model).ParentsKnown ↔ c.ParentsKnown ∧ c.Knows parent := by
  constructor
  · intro hknown
    refine ⟨fun name f t hf ht => ?_, ?_⟩
    · obtain ⟨x, hx, _⟩ := h.names name f hf
      obtain ⟨t', ht', hsame⟩ := (holdsTo_make c _).template? ht
      rw [← knows_defining hfree fun p hp => h.parents name f t p hf ht hp, ← hsame]
      exact hknown name f t' ((get?_defining_iff hfree (ne_next_of_get? hx)).mpr hf) ht'
    · rw [← knows_defining hfree hparent]
      exact hknown text _ _ (Table.get?_insert_self _ _ _) template?_defining_next
  · rintro ⟨hknown, hnew⟩ name f t hf ht
    obtain ⟨rfl, rfl⟩ | ⟨_, hf⟩ := of_get?_defining hf
    · cases template?_defining_next.symm.trans ht
      exact (knows_defining hfree hparent).mpr hnew
    · obtain ⟨x, hx, _⟩ := h.names name f hf
      obtain ⟨t₀, ht₀, hsame⟩ := (holdsTo_make c _).template?_before hx ht
      rw [hsame, knows_defining hfree fun p hp => h.parents name f t₀ p hf ht₀ hp]
      exact hknown name f t₀ hf ht₀

end Defined

/-- Where no factory is registered there is nothing to know. -/
theorem parentsKnown_of_none (hf : ∀ name, c.factories.get? name = none) : c.ParentsKnown :=
  fun name f _ h => by rw [hf name] at h; cases h

theorem rooted_of_none (hf : ∀ name, c.factories.get? name = none) : c.Rooted where
  names name f h := by rw [hf name] at h; cases h
  parents name f _ _ h := by rw [hf name] at h; cases h

end Catalogue

/-! ## 3. Steps that register no factory -/

namespace World

variable {w w' : World} {r : RegistryId} {reg : Registry}

/-- **A step that leaves the factories of a registry alone**: none is registered and none
forgotten, and no definition gets another name or another parent. -/
structure SparesFactories (r : RegistryId) (w w' : World) : Prop where
  neat : ∀ reg, w.Neat r reg → ∃ reg', w'.Neat r reg'
  catalogue : (w.catalogue r).Spared (w'.catalogue r)

theorem Aside.sparesFactories (hn : w.Neat r reg) (ha : w.Aside r w') :
    w.SparesFactories r w' where
  neat reg hn := ⟨reg, ha.neat reg hn⟩
  catalogue := by
    rw [catalogue_eq hn, catalogue_eq (ha.neat reg hn)]
    exact ⟨rfl, .of_growsTo ha.grows.1⟩

theorem Neat.parentsKnown_iff (hn : w.Neat r reg) :
    w.ParentsKnown r ↔ (w.catalogue r).ParentsKnown := by
  constructor
  · intro h name f t hf ht p hp
    rw [hn.factory?_eq] at hf ⊢
    exact h reg hn.registry name f t p hf ht hp
  · intro h reg' hreg' name f t p hf ht hp
    obtain rfl := Option.some.inj (hn.registry.symm.trans hreg')
    rw [← hn.factory?_eq] at hf ⊢
    exact h name f t hf ht p hp

end World

/-- A declaration that neither registers factories nor forgets them. -/
def Command.LeavesFactories : Command → Prop
  | .defineFactory .. | .childFactory .. | .registerFactory .. | .resetRegistry .. => False
  | _ => True

namespace Action

variable {w w' : World} {r : RegistryId} {reg : Registry} {host : Host} {v : Value}
  {c : Command}

theorem spared_declaresOn {on : Value} (h : DeclaresOn on c) (hon : w.Builds r on)
    (hok : (performCommand host c).execute w = (.ok v, w')) :
    (w.catalogue r).Spared (w'.catalogue r) := by
  obtain ⟨d, hd⟩ := exists_buildsOn h hon hok
  have haltered := h.altered hd host
  rw [hok] at haltered
  exact ⟨haltered.factories, haltered.holdsTo⟩

theorem spared_of_ok (hn : w.Neat r reg) (hc : Declares w r c) (hleaves : c.LeavesFactories)
    (hok : (performCommand host c).execute w = (.ok v, w')) :
    (w.catalogue r).Spared (w'.catalogue r) := by
  cases hc with
  | defineTrait hr name =>
    rw [performCommand, execute_bind_ok hr] at hok
    obtain ⟨text, _, _, heffect⟩ := defineTrait_effect hn hok
    exact heffect ▸ (Catalogue.spared_make _ _).trans (Catalogue.spared_place _ _ _ _)
  | localTrait hon name =>
    obtain ⟨site, text, _, _, _, heffect⟩ := localTrait_effect hn hon hok
    exact heffect ▸ (Catalogue.spared_make _ _).trans (Catalogue.spared_place _ _ _ _)
  | registerTrait hr scope name definition =>
    obtain ⟨d, site, text, _, _, _, _, heffect⟩ := registerTrait_command hn hr hok
    exact heffect ▸ Catalogue.spared_place _ _ _ _
  | set hon name value computed => exact spared_declaresOn (.set name value computed) hon hok
  | associate hon name factory traits strategy overrides =>
    exact spared_declaresOn (.associate name factory traits strategy overrides) hon hok
  | initializeWith hon fn => exact spared_declaresOn (.initializeWith fn) hon hok
  | toCreate hon fn => exact spared_declaresOn (.toCreate fn) hon hok
  | callback hon event fn => exact spared_declaresOn (.callback event fn) hon hok
  | callbackMethod hon event fn => exact spared_declaresOn (.callbackMethod event fn) hon hok
  | touch hr =>
    obtain ⟨_, w₁, htouch, hreturn⟩ := ok_of_execute_bind hok
    cases hreturn
    rw [execute_bind_ok hr] at htouch
    cases htouch
    exact World.catalogue_touch ▸ ⟨rfl, .of_growsTo (.refl _)⟩
  | defineFactory | childFactory | registerFactory | resetRegistry => exact hleaves.elim

/-- A registry stays neat, whatever comes of a declaration. -/
theorem neat_of_declares (hn : w.Neat r reg) (hc : Declares w r c) {x : Except Failure Value}
    (hexec : (performCommand host c).execute w = (x, w')) : ∃ reg', w'.Neat r reg' := by
  have hsettles := settles_command hn hc host
  unfold Settles Leads at hsettles
  rw [hexec] at hsettles
  cases x with
  | error e => exact ⟨reg, hsettles.neat reg hn⟩
  | ok v =>
    obtain ⟨reg', hn', _⟩ := hsettles.neat reg hn
    exact ⟨reg', hn'⟩

/-- **Declarations that fail leave the factories alone**, whatever they declare. -/
theorem sparesFactories_of_error (hn : w.Neat r reg) (hc : Declares w r c) {e : Failure}
    (hfails : (performCommand host c).execute w = (.error e, w')) : w.SparesFactories r w' := by
  have hsettles := settles_command hn hc host
  unfold Settles Leads at hsettles
  rw [hfails] at hsettles
  exact World.Aside.sparesFactories hn hsettles

theorem sparesFactories_of_ok (hn : w.Neat r reg) (hc : Declares w r c)
    (hleaves : c.LeavesFactories) (hok : (performCommand host c).execute w = (.ok v, w')) :
    w.SparesFactories r w' :=
  ⟨fun _ hn => neat_of_declares hn hc hok, spared_of_ok hn hc hleaves hok⟩

end Action

/-! ## 4. Steps that register one -/

/-- **The parent that the definition of a factory is given**: as an argument, or by the builder
whose child it is. -/
inductive Command.GivesParent (w : World) (r : RegistryId) : Command → Value → Prop
  | defineFactory {registry : Option Value} (h : w.Means r registry) (name model parent : Value)
      (traits : Option Value) :
      GivesParent w r (.defineFactory registry name model parent traits) parent
  | childFactory {b : BuilderId} {builder : Builder} (hb : w.builder? b = some builder)
      (hfactory : builder.forFactory = true) (hr : builder.registry = .registry r)
      (name model : Value) (traits : Option Value) :
      GivesParent w r (.childFactory (.builder b) name model traits) builder.definition

namespace Action

variable {w w' : World} {r : RegistryId} {reg : Registry} {host : Host} {v parent : Value}
  {c : Command}

theorem declares_of_givesParent (hc : c.GivesParent w r parent) : Declares w r c := by
  cases hc with
  | defineFactory h name model parent traits => exact .defineFactory h name model parent traits
  | childFactory hb _ hr name model traits =>
    exact .childFactory ⟨_, _, rfl, hb, hr⟩ name model traits

/-- Either way a factory is defined under the parent given. -/
theorem execute_of_givesParent (hc : c.GivesParent w r parent) : ∃ name model traits, ∀ host,
    (performCommand host c).execute w =
      (defineFactory r name model parent traits).execute w := by
  cases hc with
  | defineFactory h name model parent traits =>
    exact ⟨name, model, traits, fun host => by rw [performCommand, execute_bind_ok h]⟩
  | @childFactory b builder hb hfactory hr name model traits =>
    refine ⟨name, model, traits, fun host => ?_⟩
    have hbuilder : (factoryBuilder (.builder b)).execute w = (.ok builder, w) := by
      rw [factoryBuilder, execute_bind_ok (execute_getBuilder hb), hfactory]
      rfl
    rw [performCommand, childFactory, execute_bind_ok hbuilder, hr]
    rfl

/-- A parent that is given as a definition is taken as it is. -/
theorem parent_of_definition (hn : w.Neat r reg) {p : DefinitionId}
    (h : (parentOf r (.definition p)).execute w = (.ok v, w')) : v = .definition p := by
  obtain ⟨x, w₁, hget, hrest⟩ := ok_of_execute_bind h
  obtain ⟨rfl, _⟩ := definition_of_execute hget
  split at hrest
  · cases hrest
    rfl
  · obtain ⟨_, name, _, hname, _⟩ := factory_of_execute hn hrest
    cases hname

/-- What a parent is read as is there. -/
theorem exists_get?_of_parent (hn : w.Neat r reg) {parent' : Value}
    (h : (parentOf r parent).execute w = (.ok parent', w')) (p : DefinitionId)
    (hp : parent' = .definition p) : ∃ x, w.definitions.get? p = some x := by
  subst hp
  obtain ⟨_, ⟨_, t, ht⟩ | ⟨name, hf⟩⟩ := parent_of_execute hn h
  · obtain ⟨x, hx, _⟩ := Definitions.get?_of_template? ht
    exact ⟨x, hx⟩
  · obtain ⟨x, hx, _⟩ := hn.names name p hf
    exact ⟨x, hx⟩

/-- **What a parent is read as is known just when the parent given is.** -/
theorem knows_parent_iff (hn : w.Neat r reg) (hroot : (w.catalogue r).Rooted) {parent' : Value}
    (h : (parentOf r parent).execute w = (.ok parent', w')) :
    (w.catalogue r).Knows parent' ↔ (w.catalogue r).Knows parent := by
  by_cases hgiven : ∃ p, parent = .definition p
  · obtain ⟨p, rfl⟩ := hgiven
    rw [parent_of_definition hn h]
  · refine ⟨fun _ p hp => absurd ⟨p, hp⟩ hgiven, fun _ p hp => ?_⟩
    -- A parent that is found by its name is registered under it.
    subst hp
    obtain ⟨_, ⟨hdefinition, _⟩ | ⟨name, hf⟩⟩ := parent_of_execute hn h
    · exact absurd ⟨p, hdefinition⟩ hgiven
    · rw [← hn.factory?_eq] at hf
      rwa [hroot.nameOf hf]

/-- **A factory that has been defined** has its parents known just when all were and the one given
is. -/
theorem defined_parentsKnown_iff (hn : w.Neat r reg) (hroot : (w.catalogue r).Rooted)
    (hc : c.GivesParent w r parent) (hok : (performCommand host c).execute w = (.ok v, w')) :
    (w'.catalogue r).Rooted ∧ ((w'.catalogue r).ParentsKnown ↔
      (w.catalogue r).ParentsKnown ∧ (w.catalogue r).Knows parent) := by
  obtain ⟨name, model, traits, hdefine⟩ := execute_of_givesParent hc
  rw [hdefine] at hok
  obtain ⟨text, applied, parent', _, hparent, hfree, heffect⟩ := defineFactory_effect hn hok
  have hthere := exists_get?_of_parent hn hparent
  rw [heffect]
  refine ⟨hroot.defining hthere, ?_⟩
  rw [← knows_parent_iff hn hroot hparent]
  exact hroot.parentsKnown_defining hfree hthere

/-- A parent that is given by a name which no factory has is refused. -/
theorem refused_of_missing (hn : w.Neat r reg) (hc : c.GivesParent w r parent) {name : String}
    (hname : parent.name? = some name) (hmissing : (w.catalogue r).factories.get? name = none) :
    (performCommand host c).execute w = (.error (Failure.raise (.factoryNotFound name)), w) := by
  obtain ⟨name', model, traits, hdefine⟩ := execute_of_givesParent hc
  have hread : (factoryName parent).execute w = (.ok name, w) := by
    rw [factoryName, nameOr, hname]
    rfl
  have hfind : (findFactoryValue r parent).execute w =
      (.error (Failure.raise (.factoryNotFound name)), w) := by
    obtain ⟨table, htable, hfactory⟩ := hn.plain.factories_eq
    rw [hn.factory?_eq, hfactory] at hmissing
    rw [findFactoryValue, execute_bind_ok hread, execute_bind_ok (execute_getRegistry hn.registry),
      htable, execute_bind_ok (execute_definedUnder? table name _), hmissing]
    rfl
  have hparent : (parentOf r parent).execute w =
      (.error (Failure.raise (.factoryNotFound name)), w) := by
    cases parent with
    | null => cases hname
    | definition => cases hname
    | _ => exact hfind
  rw [hdefine]
  exact execute_bind_error hparent

/-! ## 5. Runs of registrations -/

end Action

/-- **A run of registrations** in a registry. Factories are defined, by themselves or as children
of builders that may be of any age; traits are registered, and everything is forgotten; whatever
fails, fails, and anything else that leaves the factories alone may happen in between. The run
comes with whether the registry knew every parent that was given since everything was forgotten
last. -/
inductive RegistrationRun (r : RegistryId) (w₀ : World) : Prop → World → Prop
  | start : RegistrationRun r w₀ True w₀
  | defined {known : Prop} {w w' : World} {c : Command} {parent : Value}
      (h : RegistrationRun r w₀ known w) (hc : c.GivesParent w r parent) {host : Host} {v : Value}
      (hok : (Action.performCommand host c).execute w = (.ok v, w')) :
      RegistrationRun r w₀ (known ∧ (w.catalogue r).Knows parent) w'
  | refused {known : Prop} {w w' : World} {c : Command} (h : RegistrationRun r w₀ known w)
      (hc : Declares w r c) {host : Host} {e : Failure}
      (hfails : (Action.performCommand host c).execute w = (.error e, w')) :
      RegistrationRun r w₀ known w'
  | declared {known : Prop} {w w' : World} {c : Command} (h : RegistrationRun r w₀ known w)
      (hc : Declares w r c) (hleaves : c.LeavesFactories) {host : Host} {v : Value}
      (hok : (Action.performCommand host c).execute w = (.ok v, w')) :
      RegistrationRun r w₀ known w'
  | reset {known : Prop} {w w' : World} {registry : Option Value}
      (h : RegistrationRun r w₀ known w) (hr : w.Means r registry) {host : Host} {v : Value}
      (hok : (Action.performCommand host (.resetRegistry registry)).execute w = (.ok v, w')) :
      RegistrationRun r w₀ True w'
  | beside {known : Prop} {w w' : World} (h : RegistrationRun r w₀ known w)
      (hb : w.SparesFactories r w') : RegistrationRun r w₀ known w'

namespace Action

variable {w₀ w w' : World} {r : RegistryId} {reg : Registry} {host : Host} {v : Value}
  {c : Command} {known : Prop}

/-- **A world of which it is known whether the parents are**, among others. -/
structure Accounted (r : RegistryId) (known : Prop) (w : World) : Prop where
  neat : ∃ reg, w.Neat r reg
  rooted : (w.catalogue r).Rooted
  parents : (w.catalogue r).ParentsKnown ↔ known

theorem Accounted.beside (h : Accounted r known w) (hs : w.SparesFactories r w') :
    Accounted r known w' where
  neat := by
    obtain ⟨reg, hn⟩ := h.neat
    exact hs.neat reg hn
  rooted := h.rooted.spared hs.catalogue
  parents := (h.rooted.parentsKnown_spared hs.catalogue).trans h.parents

theorem Accounted.defined (h : Accounted r known w) {parent : Value}
    (hc : c.GivesParent w r parent) (hok : (performCommand host c).execute w = (.ok v, w')) :
    Accounted r (known ∧ (w.catalogue r).Knows parent) w' := by
  obtain ⟨reg, hn⟩ := h.neat
  obtain ⟨hroot, hparents⟩ := defined_parentsKnown_iff hn h.rooted hc hok
  refine ⟨neat_of_declares hn (declares_of_givesParent hc) hok, hroot, ?_⟩
  rw [hparents, h.parents]

theorem Accounted.reset (h : Accounted r known w) {registry : Option Value}
    (hr : w.Means r registry)
    (hok : (performCommand host (.resetRegistry registry)).execute w = (.ok v, w')) :
    Accounted r True w' := by
  obtain ⟨reg, hn⟩ := h.neat
  have hforgotten : ∀ name, (w'.catalogue r).factories.get? name = none := by
    obtain ⟨_, w₁, hreset, hreturn⟩ := ok_of_execute_bind hok
    cases hreturn
    rw [execute_bind_ok hr] at hreset
    rw [resetRegistry_effect hn hreset]
    exact Table.get?_empty
  exact ⟨neat_of_declares hn (.resetRegistry hr) hok, Catalogue.rooted_of_none hforgotten,
    iff_of_true (Catalogue.parentsKnown_of_none hforgotten) trivial⟩

/-- **Throughout a run of registrations** the account is right. -/
theorem accounted_run (hstart : w₀.Neat r {}) (hrun : RegistrationRun r w₀ known w) :
    Accounted r known w := by
  induction hrun with
  | start =>
    have hnone : ∀ name, (w₀.catalogue r).factories.get? name = none :=
      fun name => (hstart.factory?_eq name).trans rfl
    exact ⟨⟨{}, hstart⟩, Catalogue.rooted_of_none hnone,
      iff_of_true (Catalogue.parentsKnown_of_none hnone) trivial⟩
  | defined _ hc hok ih => exact ih.defined hc hok
  | refused _ hc hfails ih =>
    obtain ⟨reg, hn⟩ := ih.neat
    exact ih.beside (sparesFactories_of_error hn hc hfails)
  | declared _ hc hleaves hok ih =>
    obtain ⟨reg, hn⟩ := ih.neat
    exact ih.beside (sparesFactories_of_ok hn hc hleaves hok)
  | reset _ hr hok ih => exact ih.reset hr hok
  | beside _ hb ih => exact ih.beside hb

/-- **Parents are registered just when those that were given are.** In every state of a registry
that registrations lead to, each registered factory has for its parent the registered definition of
that name if and only if this held of every parent that was given since everything was forgotten
last. A parent that is given by a name is looked up: where no factory has that name, the definition
fails for this reason, and the world is what it was. A parent that is given as a definition is not
looked up, so that a factory is defined under it all the same. -/
theorem parents_known_iff (hstart : w₀.Neat r {}) (hrun : RegistrationRun r w₀ known w) :
    (w.ParentsKnown r ↔ known) ∧
    (∀ c parent name host, Command.GivesParent w r c parent → parent.name? = some name →
      (w.catalogue r).factories.get? name = none →
        (performCommand host c).execute w = (.error (Failure.raise (.factoryNotFound name)), w)) ∧
    ∀ c p host v w', Command.GivesParent w r c (.definition p) →
      (performCommand host c).execute w = (.ok v, w') →
        (w'.ParentsKnown r ↔
          known ∧ (w.catalogue r).factories.get? (w.definitions.nameOf p) = some p) := by
  have h := accounted_run hstart hrun
  obtain ⟨reg, hn⟩ := h.neat
  refine ⟨hn.parentsKnown_iff.trans h.parents,
    fun c parent name host hc hname hmissing => refused_of_missing hn hc hname hmissing,
    fun c p host v w' hc hok => ?_⟩
  have h' := h.defined hc hok
  obtain ⟨reg', hn'⟩ := h'.neat
  rw [hn'.parentsKnown_iff, h'.parents]
  exact ⟨fun ⟨hknown, hp⟩ => ⟨hknown, hp p rfl⟩,
    fun ⟨hknown, hp⟩ => ⟨hknown, fun q hq => by cases hq; exact hp⟩⟩

/-! ## 6. A child of a forgotten factory -/

end Action

namespace World

/-- A factory, and a reset: the builder of the factory is still there. -/
def emptied : World :=
  (fresh.after (.defineFactory (some (.registry ⟨0⟩)) (.text "base") .null .null none)).after
    (.resetRegistry (some (.registry ⟨0⟩)))

/-- A child of the factory that the reset has forgotten. -/
def orphaned : World := emptied.after (.childFactory (.builder ⟨0⟩) (.text "child") .null none)

end World

namespace Action

open World

theorem registrationRun_emptied : RegistrationRun ⟨0⟩ World.fresh True emptied := by
  obtain ⟨_, hreset⟩ := exists_execute_after (w := World.fresh.after
    (.defineFactory (some (.registry ⟨0⟩)) (.text "base") .null .null none))
    (c := .resetRegistry (some (.registry ⟨0⟩))) (by decide +kernel)
  obtain ⟨_, hdefine⟩ := exists_execute_after (w := World.fresh)
    (c := .defineFactory (some (.registry ⟨0⟩)) (.text "base") .null .null none)
    (by decide +kernel)
  exact .reset (.defined .start (.defineFactory (by rfl) _ _ _ _) hdefine) (by rfl) hreset

theorem givesParent_orphaned : Command.GivesParent emptied ⟨0⟩
    (.childFactory (.builder ⟨0⟩) (.text "child") .null none) (.definition ⟨0⟩) := by
  have hb : emptied.builder? ⟨0⟩ = some ⟨.definition ⟨0⟩, .registry ⟨0⟩, true⟩ := by rfl
  exact .childFactory hb rfl rfl _ _ _

/-- Without the child the parents are registered, and with it they are not. -/
theorem parents_known_orphaned : emptied.ParentsKnown ⟨0⟩ ∧ ¬ orphaned.ParentsKnown ⟨0⟩ := by
  obtain ⟨hbefore, _, hafter⟩ := parents_known_iff World.neat_fresh registrationRun_emptied
  obtain ⟨v, hok⟩ := exists_execute_after (w := emptied)
    (c := .childFactory (.builder ⟨0⟩) (.text "child") .null none) (by decide +kernel)
  refine ⟨hbefore.mpr trivial, fun h => ?_⟩
  obtain ⟨_, hregistered⟩ := (hafter _ _ _ _ _ givesParent_orphaned hok).mp h
  revert hregistered
  decide +kernel

/-- **A child that is registered without its parent.** A factory is forgotten by a reset, and the
builder that was kept defines a child of it: this succeeds, the child is registered with the
factory for its parent, and no factory is registered under the parent's name. -/
theorem orphan_registered : RegistrationRun ⟨0⟩ World.fresh True emptied ∧
    ((performCommand default
      (.childFactory (.builder ⟨0⟩) (.text "child") .null none)).execute emptied).1 =
        .ok (.builder ⟨1⟩) ∧
    (orphaned.catalogue ⟨0⟩).factories.get? "child" = some ⟨1⟩ ∧
    (orphaned.definitions.template? ⟨1⟩).map (·.parent) = some (.definition ⟨0⟩) ∧
    orphaned.definitions.nameOf ⟨0⟩ = "base" ∧
    (orphaned.catalogue ⟨0⟩).factories.get? "base" = none :=
  ⟨registrationRun_emptied, by decide +kernel, by decide +kernel, by decide +kernel,
    by decide +kernel, by decide +kernel⟩

end Action

end TraitFactory
