import TraitFactory.Proofs.Catalogue
import TraitFactory.Proofs.Declarations

/-!
# What declarations do to a catalogue

Declaring something on a definition alters that definition and nothing else. Declarations that
make or register something are given by their effect on the catalogue: what is made, under which
name it is registered, and that the name was free.
-/

namespace TraitFactory

/-! ## 1. The catalogue of a registry -/

/-- What the compilations in a registry of a world read. -/
def World.catalogue (w : World) (r : RegistryId) : Catalogue where
  definitions := w.definitions
  factories := ((w.registryAt? r).bind (·.factories.own?)).getD ∅
  traits := ((w.registryAt? r).map (·.globals)).getD ∅

namespace World

variable {w w' : World} {r : RegistryId} {reg : Registry}

theorem catalogue_eq (hn : w.Neat r reg) :
    w.catalogue r = ⟨w.definitions, reg.factories.own?.getD ∅, reg.globals⟩ := by
  simp only [catalogue, hn.registry, Option.bind_some, Option.map_some, Option.getD_some]

theorem Neat.factory?_eq (hn : w.Neat r reg) (name : String) :
    (w.catalogue r).factories.get? name = reg.factory? name := by
  obtain ⟨table, htable, hfactory⟩ := hn.plain.factories_eq
  rw [catalogue_eq hn, hfactory, htable]
  rfl

theorem Neat.traits_eq (hn : w.Neat r reg) : (w.catalogue r).traits = reg.globals := by
  rw [catalogue_eq hn]

theorem Undisturbed.catalogue (h : w.Undisturbed w') : w'.catalogue r = w.catalogue r := by
  simp only [World.catalogue, h.definitions, h.registryAt?]

/-- A registry that has been touched, or has another cache, has the same tables. -/
theorem catalogue_modifyRegistry {f : Registry → Registry}
    (h : ∀ reg, (f reg).factories = reg.factories ∧ (f reg).traits = reg.traits) :
    (w.modifyRegistry r f).catalogue r = w.catalogue r := by
  have hget : (w.modifyRegistry r f).registryAt? r = (w.registryAt? r).map f := by
    show (w.registries.modify r.index f)[r.index]? = _
    rw [Array.getElem?_modify, if_pos rfl]
    rfl
  rcases hreg : w.registryAt? r with _ | reg
  · simp only [catalogue, hget, hreg]
    rfl
  · obtain ⟨hfactories, htraits⟩ := h reg
    simp only [catalogue, hget, hreg, Option.map_some, Option.bind_some, hfactories,
      Registry.globals, htraits]
    rfl

theorem catalogue_touch : (w.modifyRegistry r Registry.touch).catalogue r = w.catalogue r :=
  catalogue_modifyRegistry fun _ => ⟨rfl, rfl⟩

end World

/-! ## 2. Declaring on a definition -/

namespace Catalogue.Altered

variable {d : DefinitionId} {c c₁ c₂ : Catalogue}

theorem refl (d : DefinitionId) (c : Catalogue) : Altered d c c :=
  ⟨fun x hx => ⟨x, hx, rfl, rfl⟩, fun _ _ => rfl, rfl, rfl, rfl⟩

theorem trans (h : Altered d c c₁) (h' : Altered d c₁ c₂) : Altered d c c₂ where
  self x hx := by
    obtain ⟨x₁, hx₁, hname₁, htemplate₁⟩ := h.self x hx
    obtain ⟨x₂, hx₂, hname₂, htemplate₂⟩ := h'.self x₁ hx₁
    exact ⟨x₂, hx₂, hname₂.trans hname₁, htemplate₂.trans htemplate₁⟩
  others e he := (h'.others e he).trans (h.others e he)
  size := h'.size.trans h.size
  factories := h'.factories.trans h.factories
  traits := h'.traits.trans h.traits

end Catalogue.Altered

namespace World

/-- **A builder of a registry that declares on a certain definition.** -/
def BuildsOn (w : World) (r : RegistryId) (d : DefinitionId) (on : Value) : Prop :=
  ∃ b builder, on = .builder b ∧ w.builder? b = some builder ∧ builder.registry = .registry r ∧
    builder.definition = .definition d

variable {w w' : World} {r : RegistryId} {d : DefinitionId} {on : Value}

theorem BuildsOn.builds (h : w.BuildsOn r d on) : w.Builds r on := by
  obtain ⟨b, builder, hon, hb, hr, _⟩ := h
  exact ⟨b, builder, hon, hb, hr⟩

theorem BuildsOn.congr (h : w.BuildsOn r d on) (hb : w'.builders = w.builders) :
    w'.BuildsOn r d on := by
  obtain ⟨b, builder, hon, hget, hr, hd⟩ := h
  exact ⟨b, builder, hon, by rw [builder?, hb]; exact hget, hr, hd⟩

end World

/-- The frame of changes of the one definition that a builder declares on. -/
def Frame.altered (r : RegistryId) (d : DefinitionId) (on : Value) : Frame where
  rel w w' := w.BuildsOn r d on →
    w'.BuildsOn r d on ∧ Catalogue.Altered d (w.catalogue r) (w'.catalogue r)
  refl _ h := ⟨h, .refl _ _⟩
  trans h h' hon := by
    obtain ⟨hon₁, h₁⟩ := h hon
    obtain ⟨hon₂, h₂⟩ := h' hon₁
    exact ⟨hon₂, h₁.trans h₂⟩

namespace Action

variable {α β : Type} {w w' : World} {r : RegistryId} {reg : Registry} {d : DefinitionId}
  {on : Value}

theorem Keeps.altered {a : Action α} (h : Keeps .undisturbed a) : Keeps (.altered r d on) a := by
  intro w hon
  have hu := h w
  exact ⟨hon.congr hu.builders, hu.catalogue ▸ .refl _ _⟩

theorem keeps_modifyDefinition {f : Definition → Definition} (hname : ∀ x, (f x).name = x.name)
    (htemplate : ∀ x, (f x).template = x.template) :
    Keeps (.altered r d on) (Parts.modifyDefinition d f) := by
  refine keeps_modify fun w hon => ⟨hon, ?_⟩
  have hget := w.definitions.get?_modify d f
  refine ⟨fun x hx => ⟨f x, ?_, hname x, htemplate x⟩, fun e he => ?_, ?_, rfl, rfl⟩
  · have hx : w.definitions.get? d = some x := hx
    exact (hget d).trans (by rw [if_pos rfl, hx]; rfl)
  · exact (hget e).trans (if_neg (Ne.symm he))
  · exact Definitions.size_modify _ _ _

theorem execute_declaredOn (h : w.BuildsOn r d on) : (declaredOn on).execute w = (.ok d, w) := by
  obtain ⟨b, builder, rfl, hb, _, hd⟩ := h
  rw [declaredOn, execute_bind_ok (execute_getBuilder hb), hd]
  rfl

/-- What is done to the definition of a builder is done to that definition. -/
theorem keeps_declaredOn_bind {f : DefinitionId → Action α} (h : Keeps (.altered r d on) (f d)) :
    Keeps (.altered r d on) (declaredOn on >>= f) := by
  intro w hon
  rw [execute_bind_ok (execute_declaredOn hon)]
  exact h w hon

theorem keeps_touchFor : Keeps (.altered r d on) (touchFor on) := by
  intro w hon
  rw [execute_touchFor hon.builds]
  exact ⟨hon, by rw [World.catalogue_touch]; exact .refl _ _⟩

/-- A change that a builder tells its registry of. -/
theorem keeps_told {a : Action β} (h : Keeps (.altered r d on) a) (f : β → α) :
    Keeps (.altered r d on) (do let x ← a; touchFor on; return f x) :=
  keeps_bind h fun _ => keeps_bind keeps_touchFor fun _ => keeps_pure _

theorem keeps_declareMade (name : Value) (value : AttributeValue) (object : ObjectId) :
    Keeps (.altered r d on) (declareMade d name value object) := by
  have hmade : ∀ label, Keeps .undisturbed (do
      newDeclaration (← attributeName name) value object label) := fun _ =>
    keeps_bind (apart_attributeName name).keeps fun _ => keeps_newDeclaration _ _ _ _
  refine keeps_bind (keeps_getDefinition d).altered fun definition => ?_
  dsimp only
  split
  · exact keeps_bind (hmade _).altered fun declaration =>
      keeps_modifyDefinition (fun _ => rfl) fun _ => rfl
  · exact (keeps_bind (keeps_attributeSetAt _) fun s => keeps_bind (hmade _) fun declaration =>
      (apart_setObject _ _).keeps).altered
  · exact keeps_noAttribute.altered

theorem keeps_declareNew (name : Value) (value : AttributeValue) :
    Keeps (.altered r d on) (declareNew d name value) :=
  keeps_bind (apart_place _).keeps.altered fun _ => keeps_declareMade name value _

theorem keeps_applyTrait (ref : Value) : Keeps (.altered r d on) (applyTrait d ref) := by
  refine keeps_bind (keeps_getDefinition d).altered fun definition => ?_
  split
  · exact keeps_bind (apart_traitName ref).keeps.altered fun name =>
      keeps_modifyDefinition (fun _ => rfl) fun _ => rfl
  · exact (keeps_appendTo _ (keeps_bind (apart_traitName ref).keeps fun _ =>
      keeps_pure _)).altered

theorem keeps_addCallback (event fn : Value) :
    Keeps (.altered r d on) (addCallback d event fn) := by
  refine keeps_bind (keeps_eventOf event).altered fun e => ?_
  dsimp only
  split
  · exact (keeps_fail _).altered
  · refine keeps_bind (keeps_getDefinition d).altered fun definition =>
      keeps_bind (keeps_newCallback e fn _).altered fun c => ?_
    split
    · exact keeps_bind (keeps_modifyDefinition (fun _ => rfl) fun _ => rfl) fun _ => keeps_pure c
    · exact keeps_bind (keeps_addToCallbacks _ c).altered fun _ => keeps_pure c

theorem keeps_setAttribute (name : Value) (value : Option Value) (computed : Value) :
    Keeps (.altered r d on) (setAttribute on name value computed) := by
  refine keeps_declaredOn_bind ?_
  dsimp only
  split
  · exact keeps_bind (apart_written _ _).keeps.altered fun _ => keeps_fail_bind _ _
  · cases value with
    | some v =>
      exact keeps_told (keeps_bind (keeps_attributeValue v false).altered fun _ =>
        keeps_declareMade name _ _) fun _ => on
    | none =>
      exact keeps_bind (keeps_makeComputed computed).altered fun made =>
        keeps_told (keeps_declareNew name made) fun _ => on

theorem keeps_associate (name factory : Value) (traits strategy overrides : Option Value) :
    Keeps (.altered r d on) (associate on name factory traits strategy overrides) :=
  keeps_declaredOn_bind <|
    keeps_bind (keeps_makeAssociation factory traits strategy overrides).altered fun a =>
      keeps_told (keeps_declareNew name (.association a)) _

theorem keeps_initializeWith (fn : Value) : Keeps (.altered r d on) (initializeWith on fn) := by
  have hset : Keeps (.altered r d on) (Parts.modifyDefinition d fun definition =>
      { definition with constructor := fn.hook? }) :=
    keeps_modifyDefinition (fun _ => rfl) fun _ => rfl
  exact keeps_declaredOn_bind <| keeps_told hset fun _ => fn

theorem keeps_toCreate (fn : Value) : Keeps (.altered r d on) (toCreate on fn) := by
  have hset : Keeps (.altered r d on) (Parts.modifyDefinition d fun definition =>
      { definition with persistor := fn.hook? }) :=
    keeps_modifyDefinition (fun _ => rfl) fun _ => rfl
  exact keeps_declaredOn_bind <| keeps_told hset fun _ => fn

theorem keeps_callback (event fn : Value) : Keeps (.altered r d on) (callback on event fn) :=
  keeps_declaredOn_bind <| keeps_told (keeps_addCallback event fn) fun _ => fn

theorem keeps_callbackMethod (event fn : Value) :
    Keeps (.altered r d on) (callbackMethod on event fn) := by
  refine keeps_declaredOn_bind ?_
  split
  · exact keeps_callback event fn
  · exact keeps_noAttribute.altered

/-- Traits are applied one after another to the same definition. -/
theorem keeps_apply (traits : Value) : Keeps (.altered r d on) (apply on traits) := by
  have hone : ∀ ref : Value, Keeps (.altered r d on) (declaredOn on >>= fun e =>
      applyTrait e ref) := fun ref => keeps_declaredOn_bind (keeps_applyTrait ref)
  refine keeps_declaredOn_bind <| keeps_bind (apart_elements traits).keeps.altered fun refs => ?_
  refine keeps_bind (keeps_forIn refs (fun ref _ => ?_) _) fun _ =>
    keeps_bind keeps_touchFor fun _ => keeps_pure on
  rw [← bind_assoc]
  exact keeps_bind (hone ref) fun _ => keeps_pure _

end Action

/-- **The declarations on what a builder builds**: all but those that make something new. -/
inductive DeclaresOn (on : Value) : Command → Prop
  | set (name : Value) (value : Option Value) (computed : Value) :
      DeclaresOn on (.set on name value computed)
  | associate (name factory : Value) (traits strategy overrides : Option Value) :
      DeclaresOn on (.associate on name factory traits strategy overrides)
  | apply (traits : Value) : DeclaresOn on (.apply on traits)
  | initializeWith (fn : Value) : DeclaresOn on (.initializeWith on fn)
  | toCreate (fn : Value) : DeclaresOn on (.toCreate on fn)
  | callback (event fn : Value) : DeclaresOn on (.callback on event fn)
  | callbackMethod (event fn : Value) : DeclaresOn on (.callbackMethod on event fn)

/-- **A declaration through a builder alters the builder's definition** and nothing else, whatever
comes of it. -/
theorem DeclaresOn.altered {on : Value} {c : Command} (h : DeclaresOn on c) {w : World}
    {r : RegistryId} {d : DefinitionId} (hon : w.BuildsOn r d on) (host : Host) :
    Catalogue.Altered d (w.catalogue r)
      (((Action.performCommand host c).execute w).2.catalogue r) := by
  have hkeeps : Action.Keeps (.altered r d on) (Action.performCommand host c) := by
    cases h with
    | set name value computed => exact Action.keeps_setAttribute name value computed
    | associate name factory traits strategy overrides =>
      exact Action.keeps_associate name factory traits strategy overrides
    | apply traits => exact Action.keeps_apply traits
    | initializeWith fn => exact Action.keeps_initializeWith fn
    | toCreate fn => exact Action.keeps_toCreate fn
    | callback event fn => exact Action.keeps_callback event fn
    | callbackMethod event fn => exact Action.keeps_callbackMethod event fn
  exact (hkeeps w hon).2

end TraitFactory
