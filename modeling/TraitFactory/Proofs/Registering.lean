import TraitFactory.Proofs.Cataloguing

/-!
# What registering does to a catalogue

A declaration that succeeds in making or registering something does exactly this to the catalogue
of its registry: it makes a definition, puts it in a table under a name that was free there, or
both. What it refers to is read off the tables: a parent and a scope are factories.
-/

namespace TraitFactory

/-! ## 1. Changes of the store and of the tables -/

namespace Definitions

/-- Two changes of one definition that do the same to it do the same to the store. -/
theorem modify_congr {ds : Definitions} {g : DefinitionId} {f f' : Definition → Definition}
    (h : ∀ x, ds.get? g = some x → f x = f' x) : ds.modify g f = ds.modify g f' := by
  refine congrArg Definitions.mk (Array.ext_getElem? fun i => ?_)
  rw [Array.getElem?_modify, Array.getElem?_modify]
  split
  · subst i
    exact Option.map_congr fun x hx => h x hx
  · rfl

theorem modify_id (ds : Definitions) (g : DefinitionId) : ds.modify g (fun x => x) = ds := by
  refine congrArg Definitions.mk (Array.ext_getElem? fun i => ?_)
  rw [Array.getElem?_modify]
  split <;> simp

theorem modify_modify (ds : Definitions) (g : DefinitionId) (f f' : Definition → Definition) :
    (ds.modify g f).modify g f' = ds.modify g fun x => f' (f x) := by
  refine congrArg Definitions.mk (Array.ext_getElem? fun i => ?_)
  rw [Array.getElem?_modify, modify, Array.getElem?_modify, Array.getElem?_modify]
  split
  · rw [Option.map_map]
    rfl
  · rfl

end Definitions

namespace World

variable {w : World} {r : RegistryId} {reg : Registry}

theorem catalogue_of_modifyRegistry (h : w.registryAt? r = some reg) (f : Registry → Registry) :
    (w.modifyRegistry r f).catalogue r =
      ⟨w.definitions, (f reg).factories.own?.getD ∅, (f reg).globals⟩ := by
  simp only [catalogue, registryAt?_modifyRegistry h, Option.bind_some, Option.map_some,
    Option.getD_some]
  rfl

end World

namespace Action

variable {α : Type} {w w' : World} {r : RegistryId} {reg : Registry} {d : DefinitionId}
  {on : Value}

/-! ## 2. What is read off the tables -/

theorem definition_of_execute {x : Definition} (h : (getDefinition d).execute w = (.ok x, w')) :
    w' = w ∧ w.definitions.get? d = some x := by
  obtain ⟨_, _, hget, h⟩ := ok_of_execute_bind h
  cases hget
  rcases hd : w.definitions.get? d with _ | y <;> rw [hd] at h
  · cases h
  · cases h
    exact ⟨rfl, rfl⟩

theorem factory_of_execute (hn : w.Neat r reg) {ref v : Value}
    (h : (findFactoryValue r ref).execute w = (.ok v, w')) :
    w' = w ∧ ∃ name f, ref.name? = some name ∧ reg.factory? name = some f ∧ v = .definition f := by
  obtain ⟨name, w₁, hread, hfind⟩ := ok_of_execute_bind h
  obtain ⟨hname, rfl⟩ := execute_nameOr hread
  obtain ⟨table, htable, hfactory⟩ := hn.plain.factories_eq
  rw [execute_bind_ok (execute_getRegistry hn.registry), htable,
    execute_bind_ok (execute_definedUnder? table name _)] at hfind
  rcases hf : table.get? name with _ | f <;> rw [hf] at hfind
  · cases hfind
  · cases hfind
    exact ⟨rfl, name, f, hname, (hfactory name).trans hf, rfl⟩

/-- **The table that a scope means**: the global one, or that of a factory, which is given or
registered under the name given. -/
def ScopesTo (w : World) (reg : Registry) (scope : Value) : Option DefinitionId → Prop
  | none => scope = .null ∨ scope.asText? = some "global"
  | some g => (scope = .definition g ∧ ∃ t, w.definitions.template? g = some t) ∨
      ∃ name, scope.name? = some name ∧ reg.factory? name = some g

/-- A definition as a scope means its own table. -/
theorem ScopesTo.eq {scope : Value} {site : Option DefinitionId} (h : ScopesTo w reg scope site)
    (hg : scope = .definition d) : site = some d := by
  subst hg
  cases site with
  | none => obtain h | h := h <;> cases h
  | some g =>
    obtain ⟨h, _⟩ | ⟨name, h, _⟩ := h
    · cases h
      rfl
    · cases h

theorem scope_of_execute (hn : w.Neat r reg) {scope : Value} {site : Option DefinitionId}
    (h : (scopeFactory r scope).execute w = (.ok site, w')) :
    w' = w ∧ ScopesTo w reg scope site := by
  have hfind : ∀ {ref : Value}, scope = ref →
      (some <$> findFactory r ref).execute w = (.ok site, w') →
      w' = w ∧ ScopesTo w reg scope site := by
    rintro ref rfl h
    rw [← bind_pure_comp] at h
    obtain ⟨g, w₁, hfind, hsome⟩ := ok_of_execute_bind h
    obtain ⟨v, w₂, hvalue, hrequire⟩ := ok_of_execute_bind hfind
    obtain ⟨rfl, name, f, hname, hf, rfl⟩ := factory_of_execute hn hvalue
    cases hrequire
    cases hsome
    exact ⟨rfl, .inr ⟨name, hname, hf⟩⟩
  unfold scopeFactory at h
  split at h
  · rename_i hglobal
    cases h
    exact ⟨rfl, by simpa [ScopesTo] using hglobal⟩
  · split at h
    · obtain ⟨x, w₁, hget, hrest⟩ := ok_of_execute_bind h
      obtain ⟨rfl, hd⟩ := definition_of_execute hget
      split at hrest
      · cases hrest
        obtain ⟨t, ht⟩ := Option.isSome_iff_exists.mp (show x.template.isSome = true from ‹_›)
        exact ⟨rfl, .inl ⟨rfl, t, Option.bind_eq_some_iff.mpr ⟨x, hd, ht⟩⟩⟩
      · exact hfind rfl hrest
    · exact hfind rfl h

/-! ## 3. Registering -/

/-- **A factory that has been registered** stands in the table under its name, which was free. -/
theorem registerFactory_effect (hn : w.Neat r reg) {u : Unit}
    (h : (registerFactory r d).execute w = (.ok u, w')) :
    ∃ x, w.definitions.get? d = some x ∧ (w.catalogue r).factories.get? x.name = none ∧
      w'.catalogue r = (w.catalogue r).enrol x.name d := by
  obtain ⟨x, w₁, hget, hrest⟩ := ok_of_execute_bind h
  obtain ⟨rfl, hd⟩ := definition_of_execute hget
  obtain ⟨table, htable, hfactory⟩ := hn.plain.factories_eq
  have hname : x.nameValue.asText? = some x.name := by
    rw [(hn.definitions d x hd).nameValue_eq]
    rfl
  rw [hname] at hrest
  dsimp only at hrest
  rw [execute_bind_ok (execute_getRegistry hn.registry), htable,
    execute_bind_ok (execute_definedUnder? table x.name _)] at hrest
  rcases hfree : table.get? x.name with _ | f <;> rw [hfree] at hrest
  · cases hrest
    refine ⟨x, hd, (hn.factory?_eq _).trans ((hfactory _).trans hfree), ?_⟩
    -- The table is changed, and the registry touched.
    refine World.catalogue_touch.trans ((World.catalogue_of_modifyRegistry hn.registry _).trans ?_)
    rw [World.catalogue_eq hn, htable]
    rfl
  · cases hrest

theorem registerGlobalTrait_effect (hn : w.Neat r reg) {name : String} {u : Unit}
    (h : (registerGlobalTrait r name d).execute w = (.ok u, w')) :
    (w.catalogue r).at? none name = none ∧
      w'.catalogue r = (w.catalogue r).place none name d := by
  have htraits := hn.plain.traits_eq
  rw [registerGlobalTrait, execute_bind_ok (execute_getRegistry hn.registry), htraits] at h
  dsimp only at h
  rw [execute_bind_ok (execute_definedUnder? reg.globals name _)] at h
  rcases hfree : reg.globals.get? name with _ | t <;> rw [hfree] at h
  · cases h
    refine ⟨by rw [Catalogue.at?, hn.traits_eq, hfree], ?_⟩
    refine World.catalogue_touch.trans ((World.catalogue_of_modifyRegistry hn.registry _).trans ?_)
    rw [World.catalogue_eq hn]
    rfl
  · cases h

theorem registerLocalTrait_effect (hn : w.Neat r reg) {g : DefinitionId} {name : String} {u : Unit}
    (h : (registerLocalTrait r g name d).execute w = (.ok u, w')) :
    (∃ t, w.definitions.template? g = some t) ∧ (w.catalogue r).at? (some g) name = none ∧
      w'.catalogue r = (w.catalogue r).place (some g) name d := by
  obtain ⟨x, w₁, hget, hrest⟩ := ok_of_execute_bind h
  obtain ⟨rfl, hg⟩ := definition_of_execute hget
  rcases ht : x.template with _ | t <;> rw [ht] at hrest
  · cases hrest
  obtain ⟨table, htable⟩ := (hn.definitions g x hg).traits t ht
  dsimp only at hrest
  rw [htable, execute_bind_ok (execute_definedUnder? table name _)] at hrest
  rcases hfree : table.get? name with _ | t' <;> rw [hfree] at hrest
  · cases hrest
    have hat : (w₁.catalogue r).at? (some g) name = table.get? name := by
      have hx : (w₁.catalogue r).definitions.get? g = some x := hg
      rw [Catalogue.at?, hx, Option.bind_some, Definition.localTrait?, ht, Option.bind_some, htable]
      rfl
    refine ⟨⟨t, Option.bind_eq_some_iff.mpr ⟨x, hg, ht⟩⟩, hat.trans hfree, ?_⟩
    refine World.catalogue_touch.trans ?_
    -- The table that is put in the factory is its own with the one trait added.
    have hmodify : ∀ f : Definition → Definition, f x = x.withLocal name d →
        (w₁.modifyDefinition g f).catalogue r = (w₁.catalogue r).place (some g) name d := by
      intro f hf
      have hstore : w₁.definitions.modify g f = w₁.definitions.modify g (·.withLocal name d) := by
        refine Definitions.modify_congr fun y hy => ?_
        obtain rfl := Option.some.inj (hg.symm.trans hy)
        exact hf
      show Catalogue.mk (w₁.definitions.modify g f) _ _ = _
      rw [hstore]
      rfl
    refine hmodify _ ?_
    simp only [Definition.withLocal, Definition.modifyTemplate, ht, Option.map_some, htable,
      Slot.modify_own]
  · cases hrest

/-- **A trait that has been registered** stands in the table of its scope, under a name that was
free there. -/
theorem registerTrait_effect (hn : w.Neat r reg) {scope ref : Value} {u : Unit}
    (h : (registerTrait r scope ref d).execute w = (.ok u, w')) :
    ∃ site name, (scopeFactory r scope).execute w = (.ok site, w) ∧ ref.name? = some name ∧
      (w.catalogue r).at? site name = none ∧
      w'.catalogue r = (w.catalogue r).place site name d := by
  obtain ⟨name, w₁, hread, hrest⟩ := ok_of_execute_bind h
  obtain ⟨hname, rfl⟩ := execute_nameOr hread
  obtain ⟨site, w₂, hscope, hregister⟩ := ok_of_execute_bind hrest
  obtain ⟨rfl, _⟩ := scope_of_execute hn hscope
  refine ⟨site, name, hscope, hname, ?_⟩
  cases site with
  | none => exact registerGlobalTrait_effect hn hregister
  | some g => exact (registerLocalTrait_effect hn hregister).2

theorem resetRegistry_effect (hn : w.Neat r reg) {u : Unit}
    (h : (resetRegistry r).execute w = (.ok u, w')) :
    w'.catalogue r = (w.catalogue r).forget := by
  obtain ⟨factories, hfactories⟩ := hn.plain.factories
  rw [resetRegistry, execute_bind_ok (execute_getRegistry hn.registry), hfactories,
    hn.plain.traits_eq] at h
  cases h
  -- Both tables are emptied, the registry is touched, and a line is logged.
  let emptied := w.modifyRegistry r fun reg => { reg with factories := .own ∅ }
  have hreg : emptied.registryAt? r = some { reg with factories := .own ∅ } :=
    World.registryAt?_modifyRegistry hn.registry _
  have hcatalogue := World.catalogue_of_modifyRegistry hreg fun reg => { reg with traits := .own ∅ }
  have htouched := World.catalogue_touch (w := emptied.modifyRegistry r fun reg =>
    { reg with traits := .own ∅ }) (r := r)
  exact htouched.trans hcatalogue

/-! ## 4. Making -/

end Action

/-- A world in which one more definition has been made. -/
def World.making (w : World) (x : Definition) : World :=
  { w with definitions := w.definitions.push x }

namespace Action

variable {w w' : World} {r : RegistryId} {reg : Registry} {on : Value}

theorem catalogue_making (w : World) (r : RegistryId) (x : Definition) :
    (w.making x).catalogue r = (w.catalogue r).make x := rfl

theorem neat_making (hn : w.Neat r reg) {x : Definition} (hx : x.Plain) : (w.making x).Neat r reg :=
  (World.aside_pushDefinition (r := r) hx).neat reg hn

/-- What a parent may be: nothing, or a factory that is given or registered. -/
def IsParent (w : World) (reg : Registry) (parent : Value) : Value → Prop
  | .null => True
  | .definition p => (parent = .definition p ∧ ∃ t, w.definitions.template? p = some t) ∨
      ∃ name, reg.factory? name = some p
  | _ => False

theorem parent_of_execute (hn : w.Neat r reg) {parent v : Value}
    (h : (parentOf r parent).execute w = (.ok v, w')) : w' = w ∧ IsParent w reg parent v := by
  have hfind : ∀ {ref : Value}, (findFactoryValue r ref).execute w = (.ok v, w') →
      w' = w ∧ IsParent w reg parent v := by
    intro ref h
    obtain ⟨hw, name, p, _, hp, rfl⟩ := factory_of_execute hn h
    exact ⟨hw, .inr ⟨name, hp⟩⟩
  unfold parentOf at h
  split at h
  · cases h
    exact ⟨rfl, trivial⟩
  · obtain ⟨x, w₁, hget, hrest⟩ := ok_of_execute_bind h
    obtain ⟨rfl, hd⟩ := definition_of_execute hget
    split at hrest
    · -- A factory that is given is the parent itself.
      cases hrest
      obtain ⟨t, ht⟩ := Option.isSome_iff_exists.mp (show x.template.isSome = true from ‹_›)
      exact ⟨rfl, .inl ⟨rfl, t, Option.bind_eq_some_iff.mpr ⟨x, hd, ht⟩⟩⟩
    · exact hfind hrest
  · exact hfind h

/-- **A factory that has been defined** is made, and registered under its name, which was free. -/
theorem defineFactory_effect (hn : w.Neat r reg) {name model parent v : Value}
    {traits : Option Value}
    (h : (defineFactory r name model parent traits).execute w = (.ok v, w')) :
    ∃ text applied parent', name.name? = some text ∧
      (parentOf r parent).execute w = (.ok parent', w) ∧
      (w.catalogue r).factories.get? text = none ∧
      w'.catalogue r = ((w.catalogue r).make (.newFactory text applied parent' model)).enrol text
        w.definitions.next := by
  obtain ⟨parent', w₁, hparent, hnamed⟩ := ok_of_execute_bind h
  obtain ⟨rfl, _⟩ := parent_of_execute hn hparent
  obtain ⟨text, w₂, hread, helements⟩ := ok_of_execute_bind hnamed
  obtain ⟨hname, rfl⟩ := execute_nameOr hread
  obtain ⟨refs, w₃, hrefs, hmap⟩ := ok_of_execute_bind helements
  obtain ⟨applied, w₄, happlied, hmake⟩ := ok_of_execute_bind hmap
  -- Reading the references disturbs nothing.
  have hu₃ : w₂.Undisturbed w₃ := by
    have hkeeps := (apart_elementsOf traits).keeps w₂
    rwa [hrefs] at hkeeps
  have hu₄ : w₃.Undisturbed w₄ := by
    have hkeeps := keeps_mapM (F := .undisturbed) refs (fun ref => (apart_traitName ref).keeps) w₃
    rwa [happlied] at hkeeps
  have hu : w₂.Undisturbed w₄ := Frame.undisturbed.trans hu₃ hu₄
  have hregister : ∃ w₅, (registerFactory r w₄.definitions.next).execute
      (w₄.making (.newFactory text applied parent' model)) = (.ok ⟨⟩, w₅) ∧
        w'.catalogue r = w₅.catalogue r := by
    obtain ⟨_, _, hnew, hmade⟩ := ok_of_execute_bind hmake
    cases hnew
    obtain ⟨_, w₅, hregister, hbuilder⟩ := ok_of_execute_bind hmade
    cases hbuilder
    exact ⟨w₅, hregister, rfl⟩
  obtain ⟨w₅, hregister, hcatalogue⟩ := hregister
  have hplain : (Definition.newFactory text applied parent' model).Plain := plain_factory _ _ _ _
  obtain ⟨x, hx, hfree, heffect⟩ :=
    registerFactory_effect (neat_making (hn.undisturbed hu) hplain) hregister
  have hnew := Definitions.get?_push_next w₄.definitions (.newFactory text applied parent' model)
  obtain rfl := Option.some.inj (hx.symm.trans hnew)
  refine ⟨text, applied, parent', hname, hparent, ?_, ?_⟩
  · rw [catalogue_making, hu.catalogue] at hfree
    exact hfree
  · rw [hcatalogue, heffect, catalogue_making, hu.catalogue, hu.definitions]
    rfl

/-- A trait that has just been made is put in the table of its scope. -/
theorem registerMade_effect (hn : w.Neat r reg) {scope : Value} {name : String} {u : Unit}
    (h : (registerTrait r scope (.text name) w.definitions.next).execute
      (w.making (.newTrait name)) = (.ok u, w')) :
    ∃ site, ScopesTo (w.making (.newTrait name)) reg scope site ∧
      (w.catalogue r).at? site name = none ∧
      w'.catalogue r = ((w.catalogue r).make (.newTrait name)).place site name
        w.definitions.next := by
  have hnew := neat_making hn (plain_empty name)
  obtain ⟨site, _, hscope, hname, hfree, heffect⟩ := registerTrait_effect hnew h
  obtain ⟨_, hsite⟩ := scope_of_execute hnew hscope
  cases hname
  have hlocals := ((w.catalogue r).makes_newTrait name).locals
  exact ⟨site, hsite, (Catalogue.at?_make hlocals site name).symm.trans hfree, heffect⟩

/-- **A trait that has been defined** is made, and put in the global table. -/
theorem defineTrait_effect (hn : w.Neat r reg) {name v : Value}
    (h : (defineTrait r name).execute w = (.ok v, w')) :
    ∃ text, name.name? = some text ∧ (w.catalogue r).at? none text = none ∧
      w'.catalogue r = ((w.catalogue r).make (.newTrait text)).place none text
        w.definitions.next := by
  obtain ⟨text, w₁, hread, hmake⟩ := ok_of_execute_bind h
  obtain ⟨hname, rfl⟩ := execute_nameOr hread
  have hregister : ∃ w₂, (registerTrait r .null (.text text) w₁.definitions.next).execute
      (w₁.making (.newTrait text)) = (.ok ⟨⟩, w₂) ∧ w'.catalogue r = w₂.catalogue r := by
    obtain ⟨_, _, hnew, hmade⟩ := ok_of_execute_bind hmake
    cases hnew
    obtain ⟨_, w₂, hregister, hbuilder⟩ := ok_of_execute_bind hmade
    cases hbuilder
    exact ⟨w₂, hregister, rfl⟩
  obtain ⟨w₂, hregister, hcatalogue⟩ := hregister
  obtain ⟨site, hsite, hfree, heffect⟩ := registerMade_effect hn hregister
  -- Nothing as a scope means the global table.
  cases site with
  | some g => obtain ⟨h, _⟩ | ⟨_, h, _⟩ := hsite <;> cases h
  | none => exact ⟨text, hname, hfree, hcatalogue.trans heffect⟩

/-- A builder for a factory has made what it has made in its registry. -/
theorem factoryBuilder_of_execute (hon : w.Builds r on) {builder : Builder}
    (h : (factoryBuilder on).execute w = (.ok builder, w')) :
    w' = w ∧ builder.registry = .registry r ∧
      ∀ g, builder.definition = .definition g ↔ w.BuildsOn r g on := by
  obtain ⟨b, builder', rfl, hb, hr⟩ := hon
  rw [factoryBuilder, execute_bind_ok (execute_getBuilder hb)] at h
  split at h
  · cases h
    refine ⟨rfl, hr, fun g => ⟨fun hd => ⟨b, _, rfl, hb, hr, hd⟩, fun hg => ?_⟩⟩
    obtain ⟨b', builder', hon', hb', _, hd⟩ := hg
    cases hon'
    obtain rfl := Option.some.inj (hb.symm.trans hb')
    exact hd
  · cases h

/-- **A trait that has been declared on a factory** is made, and put in that factory's table. -/
theorem localTrait_effect (hn : w.Neat r reg) (hon : w.Builds r on) {name v : Value}
    (h : (localTrait on name).execute w = (.ok v, w')) :
    ∃ site text, (∀ g, w.BuildsOn r g on → site = some g) ∧ name.name? = some text ∧
      (w.catalogue r).at? site text = none ∧
      w'.catalogue r = ((w.catalogue r).make (.newTrait text)).place site text
        w.definitions.next := by
  obtain ⟨builder, w₁, hbuilder, hnamed⟩ := ok_of_execute_bind h
  obtain ⟨rfl, hr, hdefinition⟩ := factoryBuilder_of_execute hon hbuilder
  obtain ⟨text, w₂, hread, hmake⟩ := ok_of_execute_bind hnamed
  obtain ⟨hname, rfl⟩ := execute_nameOr hread
  have hregister : ∃ w₃, (registerTrait r builder.definition (.text text)
      w₂.definitions.next).execute (w₂.making (.newTrait text)) = (.ok ⟨⟩, w₃) ∧
        w'.catalogue r = w₃.catalogue r := by
    rw [hr] at hmake
    obtain ⟨_, _, hnew, hrequire⟩ := ok_of_execute_bind hmake
    cases hnew
    obtain ⟨_, _, hregistry, hmade⟩ := ok_of_execute_bind hrequire
    cases hregistry
    obtain ⟨_, w₃, hregister, hbuilder⟩ := ok_of_execute_bind hmade
    cases hbuilder
    exact ⟨w₃, hregister, rfl⟩
  obtain ⟨w₃, hregister, hcatalogue⟩ := hregister
  obtain ⟨site, hsite, hfree, heffect⟩ := registerMade_effect hn hregister
  exact ⟨site, text, fun g hg => hsite.eq ((hdefinition g).mpr hg), hname, hfree,
    hcatalogue.trans heffect⟩

/-- **A child** is a factory that is defined with the builder's factory for its parent. -/
theorem childFactory_effect (hon : w.Builds r on) {name model v : Value} {traits : Option Value}
    (h : (childFactory on name model traits).execute w = (.ok v, w')) :
    ∃ parent, (∀ g, parent = .definition g ↔ w.BuildsOn r g on) ∧
      (defineFactory r name model parent traits).execute w = (.ok v, w') := by
  obtain ⟨builder, w₁, hbuilder, hdefine⟩ := ok_of_execute_bind h
  obtain ⟨rfl, hr, hdefinition⟩ := factoryBuilder_of_execute hon hbuilder
  rw [hr] at hdefine
  exact ⟨builder.definition, hdefinition, hdefine⟩

end Action

end TraitFactory
