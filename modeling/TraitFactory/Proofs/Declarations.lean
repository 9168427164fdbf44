import TraitFactory.Interpreter
import TraitFactory.Proofs.Arguments
import TraitFactory.Proofs.Changing
import TraitFactory.Proofs.Flattening

/-!
# Declarations settle

Every public declaration on a registry, whether through the registry or through one of its
builders, raises the registry's generation when it succeeds, and leaves the registry and all
definitions as they were when it fails. The one exception is the application of several traits,
of which those before a bad reference stay applied.
-/

namespace TraitFactory

/-! ## 1. Changes of a definition -/

namespace Definition.Plain

variable {x : Definition}

/-! A plain definition stays plain, whatever is added to its parts. -/

theorem declare (h : x.Plain) (declaration : Declaration) :
    { x with attributes := x.attributes.modify (·.declare declaration) }.Plain := by
  obtain ⟨s, hs, hkeyed⟩ := h.attributes
  exact { h with
    attributes := ⟨s.declare declaration, by rw [hs]; rfl, hkeyed.declare declaration⟩ }

theorem apply (h : x.Plain) (names : List String) :
    { x with appliedTraits := x.appliedTraits.modify (· ++ names) }.Plain := by
  obtain ⟨applied, happlied⟩ := h.appliedTraits
  exact { h with appliedTraits := ⟨applied ++ names, by rw [happlied]; rfl⟩ }

theorem call (h : x.Plain) (c : Callback) :
    { x with callbacks := x.callbacks.modify (· ++ [c]) }.Plain := by
  obtain ⟨cs, hcs⟩ := h.callbacks
  exact { h with callbacks := ⟨cs ++ [c], by rw [hcs]; rfl⟩ }

theorem hook (h : x.Plain) (constructor persistor : Option Value) :
    { x with constructor := constructor, persistor := persistor }.Plain :=
  ⟨h.given, h.attributes, h.appliedTraits, h.callbacks, h.traits⟩

theorem withTable (h : x.Plain) (table : Table DefinitionId) :
    (x.modifyTemplate fun t => { t with traits := .own table }).Plain := by
  refine ⟨h.given, h.attributes, h.appliedTraits, h.callbacks, fun t ht => ?_⟩
  obtain ⟨t, _, rfl⟩ := Option.map_eq_some_iff.mp ht
  exact ⟨table, rfl⟩

end Definition.Plain

namespace Action

variable {α β : Type} {r : RegistryId} {w : World} {reg : Registry} {on : Value}

theorem Keeps.aside {a : Action α} (h : Keeps .undisturbed a) : Keeps (.aside r) a :=
  fun w => (h w).aside

/-- A definition that stays plain and keeps its name may be changed. -/
theorem attempts_modifyDefinition (d : DefinitionId) {f : Definition → Definition}
    (hplain : ∀ x : Definition, x.Plain → (f x).Plain) (hname : ∀ x, (f x).name = x.name) :
    Attempts r (Parts.modifyDefinition d f) :=
  attempts_modify fun _ => World.kept_modifyDefinition d hplain hname

theorem attempts_addDeclaration (d : DefinitionId) (declaration : Declaration) :
    Attempts r (addDeclaration d declaration) :=
  attempts_modifyDefinition d (fun _ hx => hx.declare declaration) fun _ => rfl

theorem attempts_declareMade (d : DefinitionId) (name : Value) (value : AttributeValue)
    (object : ObjectId) : Attempts r (declareMade d name value object) := by
  -- The declaration is made before it is put in its place.
  have hmade : ∀ label, Keeps .undisturbed (do
      newDeclaration (← attributeName name) value object label) := fun _ =>
    keeps_bind (apart_attributeName name).keeps fun _ => keeps_newDeclaration _ _ _ _
  refine attempts_bind (keeps_getDefinition d).aside fun definition => ?_
  dsimp only
  split
  · exact attempts_bind (hmade _).aside fun declaration => attempts_addDeclaration d declaration
  · exact (keeps_bind (keeps_attributeSetAt _) fun s => keeps_bind (hmade _) fun declaration =>
      (apart_setObject _ _).keeps).aside.attempts
  · exact keeps_noAttribute.attempts

theorem attempts_declare (d : DefinitionId) (name value : Value) :
    Attempts r (declare d name value) :=
  attempts_bind (keeps_attributeValue value false).aside fun _ => attempts_declareMade d name _ _

theorem attempts_declareNew (d : DefinitionId) (name : Value) (value : AttributeValue) :
    Attempts r (declareNew d name value) :=
  attempts_bind (apart_place _).keeps.aside fun _ => attempts_declareMade d name value _

theorem attempts_applyTrait (d : DefinitionId) (ref : Value) : Attempts r (applyTrait d ref) := by
  refine attempts_bind (keeps_getDefinition d).aside fun definition => ?_
  split
  · refine attempts_bind (apart_traitName ref).keeps.aside fun name =>
      attempts_modifyDefinition d (fun _ hx => hx.apply [name]) fun _ => rfl
  · exact (keeps_appendTo _ (keeps_bind (apart_traitName ref).keeps fun _ =>
      keeps_pure _)).aside.attempts

theorem Attempts.bind_pure {a : Action β} (h : Attempts r a) (f : β → α) :
    Attempts r (a >>= fun x => pure (f x)) := by
  intro w
  rw [leads_bind]
  exact (h w).imp (fun _ _ h => h) fun _ h => h

theorem attempts_appendCallback (d : DefinitionId) (c : Callback) :
    Attempts r (Parts.modifyDefinition d fun definition =>
      { definition with callbacks := definition.callbacks.modify (· ++ [c]) }) :=
  attempts_modifyDefinition d (fun _ hx => hx.call c) fun _ => rfl

theorem attempts_addCallback (d : DefinitionId) (event fn : Value) :
    Attempts r (addCallback d event fn) := by
  refine attempts_bind (keeps_eventOf event).aside fun e => ?_
  dsimp only
  split
  · exact fun w => World.Aside.refl w
  · refine attempts_bind (keeps_getDefinition d).aside fun definition =>
      attempts_bind (keeps_newCallback e fn _).aside fun c => ?_
    split
    · exact (attempts_appendCallback d c).bind_pure fun _ => c
    · exact (keeps_addToCallbacks _ c).aside.attempts.bind_pure fun _ => c

theorem attempts_setHooks (d : DefinitionId) (f : Definition → Definition)
    (h : ∀ x, f x = { x with constructor := (f x).constructor, persistor := (f x).persistor }) :
    Attempts r (Parts.modifyDefinition d f) := by
  refine attempts_modifyDefinition d (fun x hx => ?_) fun x => by rw [h x]
  rw [h x]
  exact hx.hook _ _

/-! ## 2. Registering -/

theorem settles_of_execute {a : Action β} {f : β → Action α} {x : β}
    (h : a.execute w = (.ok x, w)) (hf : Settles r (f x) w) : Settles r (a >>= f) w := by
  unfold Settles Leads
  rw [execute_bind_ok h]
  exact hf

theorem settles_fail_bind (c : Cause) (f : β → Action α) : Settles r (fail c >>= f) w :=
  World.Aside.refl w

/-- A table is replaced, and the registry touched. -/
theorem settles_replace {f : Registry → Registry} (h : w.Kept r (w.modifyRegistry r f)) :
    Settles r (do modifyRegistry r f; touch r) w :=
  h.changed World.changed_touch

theorem execute_definedUnder? (table : Table DefinitionId) (name : String) (w : World) :
    (definedUnder? (.own table) name).execute w = (.ok ((table.get? name).map .definition), w) :=
  rfl

theorem settles_getDefinition {d : DefinitionId} {f : Definition → Action α}
    (h : ∀ definition, w.definitions.get? d = some definition → Settles r (f definition) w) :
    Settles r (getDefinition d >>= f) w := by
  rcases hd : w.definitions.get? d with _ | definition
  · have hexec : (getDefinition d).execute w = (.error (Failure.raise (.wrongType none)), w) := by
      rw [getDefinition, execute_bind_ok (execute_get w), hd]
      rfl
    unfold Settles Leads
    rw [execute_bind_error hexec]
    exact .refl w
  · exact settles_of_execute (execute_getDefinition hd) (h definition hd)

/-- **A factory is registered** under its own name, unless the name is taken. -/
theorem settles_registerFactory (hn : w.Neat r reg) (d : DefinitionId) :
    Settles r (registerFactory r d) w := by
  obtain ⟨table, htable, hfactory⟩ := hn.plain.factories_eq
  refine settles_getDefinition fun definition hd => ?_
  -- A plain definition's name is a text, so it can be looked up in the table.
  have hname : definition.nameValue.asText? = some definition.name := by
    rw [(hn.definitions d definition hd).nameValue_eq]
    rfl
  rw [hname]
  refine settles_of_execute (execute_getRegistry hn.registry) ?_
  rw [htable]
  refine settles_of_execute (execute_definedUnder? table _ w) ?_
  dsimp only
  split
  · exact settles_fail_bind _ _
  · refine settles_replace (World.kept_modifyRegistry fun reg' hn' => ?_)
    obtain rfl : reg = reg' := Option.some.inj (hn.registry.symm.trans hn'.registry)
    exact ⟨hn.plain.withFactories _, hn.names.insert hfactory hd, rfl, rfl⟩

theorem settles_registerGlobalTrait (hn : w.Neat r reg) (name : String) (d : DefinitionId) :
    Settles r (registerGlobalTrait r name d) w := by
  refine settles_of_execute (execute_getRegistry hn.registry) ?_
  rw [hn.plain.traits_eq]
  refine settles_of_execute (execute_definedUnder? reg.globals name w) ?_
  dsimp only
  split
  · exact settles_fail_bind _ _
  · refine settles_replace (World.kept_modifyRegistry fun reg' hn' => ?_)
    obtain rfl : reg = reg' := Option.some.inj (hn.registry.symm.trans hn'.registry)
    exact ⟨hn.plain.withTraits _, hn.names, rfl, rfl⟩

/-- A trait of a factory's own table is put there. -/
theorem kept_insertTrait (f : DefinitionId) (table : Table DefinitionId) :
    w.Kept r (w.modifyDefinition f fun factory =>
      factory.modifyTemplate fun t => { t with traits := .own table }) :=
  World.kept_modifyDefinition f (fun _ hx => hx.withTable table) fun _ => rfl

theorem settles_registerLocalTrait (hn : w.Neat r reg) (f : DefinitionId) (name : String)
    (d : DefinitionId) : Settles r (registerLocalTrait r f name d) w := by
  refine settles_getDefinition fun factory hf => ?_
  dsimp only
  rcases ht : factory.template with _ | t
  · exact settles_fail _
  -- A factory's own table is changed where the factory is, and the registry is told of it.
  · obtain ⟨table, htable⟩ := (hn.definitions f factory hf).traits t ht
    dsimp only
    rw [htable]
    refine settles_of_execute (execute_definedUnder? table name w) ?_
    split
    · exact settles_fail_bind _ _
    · exact (kept_insertTrait f _).changed World.changed_touch

theorem settles_registerTrait (hn : w.Neat r reg) (scope name : Value) (d : DefinitionId) :
    Settles r (registerTrait r scope name d) w := by
  refine settles_bind (apart_traitName name).keeps.aside fun name w₁ h₁ =>
    settles_bind (keeps_scopeFactory r scope).aside fun found w₂ h₂ => ?_
  have hn₂ := h₂.neat reg (h₁.neat reg hn)
  cases found with
  | none => exact settles_registerGlobalTrait hn₂ name d
  | some f => exact settles_registerLocalTrait hn₂ f name d

/-- **A registry forgets** all factories and global traits. -/
theorem settles_resetRegistry (hn : w.Neat r reg) : Settles r (resetRegistry r) w := by
  obtain ⟨factories, hfactories⟩ := hn.plain.factories
  refine settles_of_execute (execute_getRegistry hn.registry) ?_
  rw [hfactories, hn.plain.traits_eq]
  -- The tables are emptied one after the other, and then the registry is touched.
  have hfactories : ∀ w : World,
      w.Kept r (w.modifyRegistry r fun reg => { reg with factories := .own ∅ }) := fun w =>
    World.kept_modifyRegistry fun _ hn' =>
      ⟨hn'.plain.withFactories _, (fun _ _ hf => nomatch hf), rfl, rfl⟩
  have htraits : ∀ w : World,
      w.Kept r (w.modifyRegistry r fun reg => { reg with traits := .own ∅ }) := fun w =>
    World.kept_modifyRegistry fun _ hn' => ⟨hn'.plain.withTraits _, hn'.names, rfl, rfl⟩
  have hlog : Keeps .undisturbed (log .info Registry.logger "Registry reset") := keeps_log _ _ _
  exact (((hfactories w).trans (htraits _)).changed World.changed_touch).trans_kept
    (hlog _).aside.kept

/-! ## 3. New definitions -/

theorem keeps_newDefinition {definition : Definition} (h : definition.Plain) :
    Keeps (.aside r) (newDefinition definition) := fun _ => World.aside_pushDefinition h

/-- A builder for something that has just been declared. -/
theorem Settles.builder {a : Action Unit} (h : Settles r a w) (builder : Builder) :
    Settles r (do a; newBuilder builder) w :=
  h.bind_ok fun _ _ => ⟨_, _, rfl, World.aside_pushBuilder builder⟩

/-- A trait with nothing in it. -/
theorem plain_empty (name : String) : ({ name := name } : Definition).Plain where
  given := rfl
  attributes := ⟨∅, rfl, AttributeSet.keyed_empty⟩
  appliedTraits := ⟨[], rfl⟩
  callbacks := ⟨[], rfl⟩
  traits _ h := nomatch h

/-- A factory with nothing in it but the traits that it applies. -/
theorem plain_factory (name : String) (applied : List String) (parent model : Value) :
    ({ name := name, appliedTraits := .own applied,
       template := some { parent := parent, model := model } } : Definition).Plain where
  given := rfl
  attributes := ⟨∅, rfl, AttributeSet.keyed_empty⟩
  appliedTraits := ⟨applied, rfl⟩
  callbacks := ⟨[], rfl⟩
  traits t h := ⟨∅, by cases h; rfl⟩

theorem settles_defineFactory (hn : w.Neat r reg) (name model parent : Value)
    (traits : Option Value) : Settles r (defineFactory r name model parent traits) w := by
  refine settles_bind (keeps_parentOf r parent).aside fun parent w₁ h₁ =>
    settles_bind (apart_factoryName name).keeps.aside fun name w₂ h₂ =>
    settles_bind (apart_elementsOf traits).keeps.aside fun refs w₃ h₃ =>
    settles_bind (keeps_mapM refs fun ref => (apart_traitName ref).keeps).aside
      fun applied w₄ h₄ =>
    settles_bind (keeps_newDefinition (plain_factory name applied parent model))
      fun d w₅ h₅ => ?_
  have hn₅ := ((((h₁.trans h₂).trans h₃).trans h₄).trans h₅).neat reg hn
  exact (settles_registerFactory hn₅ d).builder _

theorem settles_defineTrait (hn : w.Neat r reg) (name : Value) :
    Settles r (defineTrait r name) w := by
  refine settles_bind (apart_traitName name).keeps.aside fun name w₁ h₁ =>
    settles_bind (keeps_newDefinition (plain_empty name)) fun d w₂ h₂ => ?_
  exact (settles_registerTrait ((h₁.trans h₂).neat reg hn) _ _ d).builder _

/-- A builder that is not for a factory refuses. -/
theorem settles_factoryBuilder (hon : w.Builds r on) {f : Builder → Action α}
    (h : ∀ builder, builder.registry = .registry r → Settles r (f builder) w) :
    Settles r (factoryBuilder on >>= f) w := by
  obtain ⟨b, builder, rfl, hb, hr⟩ := hon
  unfold Settles Leads
  rw [factoryBuilder, bind_assoc, execute_bind_ok (execute_getBuilder hb)]
  split_ifs
  · exact h builder hr
  · exact .refl w

theorem settles_localTrait (hn : w.Neat r reg) (hon : w.Builds r on) (name : Value) :
    Settles r (localTrait on name) w := by
  refine settles_factoryBuilder hon fun builder hr =>
    settles_bind (apart_traitName name).keeps.aside fun name w₁ h₁ =>
    settles_bind (keeps_newDefinition (plain_empty name)) fun d w₂ h₂ => ?_
  rw [hr]
  refine settles_of_execute (x := r) rfl ?_
  exact (settles_registerTrait ((h₁.trans h₂).neat reg hn) _ _ d).builder _

theorem settles_childFactory (hn : w.Neat r reg) (hon : w.Builds r on) (name model : Value)
    (traits : Option Value) : Settles r (childFactory on name model traits) w := by
  refine settles_factoryBuilder hon fun builder hr => ?_
  rw [hr]
  exact settles_defineFactory hn name model builder.definition traits

/-! ## 4. Declaring through a builder -/

theorem settles_setAttribute (hon : w.Builds r on) (name : Value) (value : Option Value)
    (computed : Value) : Settles r (setAttribute on name value computed) w := by
  refine settles_bind (keeps_declaredOn on).aside fun d w₁ h₁ => ?_
  have hon₁ := h₁.kept.builds hon
  dsimp only
  split
  · exact settles_bind (apart_written _ _).keeps.aside fun _ w₂ _ => settles_fail_bind _ _
  · cases value with
    | some v => exact (attempts_declare d name v).told hon₁ _
    | none =>
      refine settles_bind (keeps_makeComputed computed).aside fun made w₂ h₂ => ?_
      exact (attempts_declareNew d name made).told (h₂.kept.builds hon₁) _

theorem settles_associate (hon : w.Builds r on) (name factory : Value)
    (traits strategy overrides : Option Value) :
    Settles r (associate on name factory traits strategy overrides) w := by
  refine settles_bind (keeps_declaredOn on).aside fun d w₁ h₁ =>
    settles_bind (keeps_makeAssociation factory traits strategy overrides).aside fun a w₂ h₂ => ?_
  exact (attempts_declareNew d name (.association a)).told ((h₁.trans h₂).kept.builds hon) _

theorem settles_initializeWith (hon : w.Builds r on) (fn : Value) :
    Settles r (initializeWith on fn) w := by
  refine settles_bind (keeps_declaredOn on).aside fun d w₁ h₁ => ?_
  exact (attempts_setHooks d _ fun _ => rfl).told (h₁.kept.builds hon) _

theorem settles_toCreate (hon : w.Builds r on) (fn : Value) : Settles r (toCreate on fn) w := by
  refine settles_bind (keeps_declaredOn on).aside fun d w₁ h₁ => ?_
  exact (attempts_setHooks d _ fun _ => rfl).told (h₁.kept.builds hon) _

theorem settles_callback (hon : w.Builds r on) (event fn : Value) :
    Settles r (callback on event fn) w := by
  refine settles_bind (keeps_declaredOn on).aside fun d w₁ h₁ => ?_
  exact (attempts_addCallback d event fn).told (h₁.kept.builds hon) _

theorem settles_callbackMethod (hon : w.Builds r on) (event fn : Value) :
    Settles r (callbackMethod on event fn) w := by
  refine settles_bind (keeps_declaredOn on).aside fun d w₁ h₁ => ?_
  split
  · exact settles_callback (h₁.kept.builds hon) event fn
  · exact settles_fail _

theorem Attempts.keeps {a : Action α} (h : Attempts r a) : Keeps (.kept r) a := by
  intro w
  have h := h w
  unfold Leads at h
  rcases hexec : a.execute w with ⟨e | x, w'⟩ <;> rw [hexec] at h
  · exact h.kept
  · exact h

theorem keeps_forIn {F : Frame} (xs : List α) {f : α → β → Action (ForInStep β)}
    (h : ∀ x s, Keeps F (f x s)) (s : β) : Keeps F (forIn xs s f) := by
  induction xs generalizing s with
  | nil => exact keeps_pure s
  | cons x xs ih =>
    rw [List.forIn_cons]
    refine keeps_bind (h x s) fun step => ?_
    cases step with
    | done s => exact keeps_pure s
    | yield s => exact ih s

/-- **Traits that are applied without a failure** have changed the registry. -/
theorem changed_apply (hon : w.Builds r on) {traits v : Value} {w' : World}
    (h : (apply on traits).execute w = (.ok v, w')) : w.Changed r w' := by
  have happly : ∀ refs : List Value, Keeps (.kept r) (do
      for ref in refs do applyTrait (← declaredOn on) ref) := fun refs =>
    keeps_bind (keeps_forIn refs (fun ref _ =>
      keeps_bind (keeps_declaredOn on).aside.attempts.keeps fun d =>
        keeps_bind (attempts_applyTrait d ref).keeps fun _ => keeps_pure _) _) fun _ => keeps_pure _
  -- All that comes before the builder tells its registry keeps the cache.
  have hbefore : Keeps (.kept r) (do
      let _ ← declaredOn on
      for ref in ← elements traits do applyTrait (← declaredOn on) ref) :=
    keeps_bind (keeps_declaredOn on).aside.attempts.keeps fun _ =>
      keeps_bind (apart_elements traits).keeps.aside.attempts.keeps happly
  have hsplit : apply on traits = (do
      (do
        let _ ← declaredOn on
        for ref in ← elements traits do applyTrait (← declaredOn on) ref)
      touchFor on
      return on) := by
    simp only [apply, bind_assoc, pure_bind]
  rw [hsplit] at h
  obtain ⟨_, w₁, hexec, h⟩ := ok_of_execute_bind h
  have hkept : w.Kept r w₁ := by
    have h := hbefore w
    rwa [hexec] at h
  rw [execute_bind_ok (execute_touchFor (hkept.builds hon))] at h
  obtain rfl := (Prod.mk.inj h).2
  exact hkept.changed World.changed_touch

/-! ## 5. Commands -/

end Action

/-- The registry that a command is given, or the session's own, is a certain one. -/
def World.Means (w : World) (r : RegistryId) (registry : Option Value) : Prop :=
  (Action.registryArgument registry).execute w = (.ok r, w)

/-- **The declarations on a registry**: through the registry itself, or through one of its
builders. -/
inductive Declares (w : World) (r : RegistryId) : Command → Prop
  | defineFactory {registry : Option Value} (h : w.Means r registry) (name model parent : Value)
      (traits : Option Value) : Declares w r (.defineFactory registry name model parent traits)
  | defineTrait {registry : Option Value} (h : w.Means r registry) (name : Value) :
      Declares w r (.defineTrait registry name)
  | childFactory {on : Value} (h : w.Builds r on) (name model : Value) (traits : Option Value) :
      Declares w r (.childFactory on name model traits)
  | localTrait {on : Value} (h : w.Builds r on) (name : Value) : Declares w r (.localTrait on name)
  | set {on : Value} (h : w.Builds r on) (name : Value) (value : Option Value) (computed : Value) :
      Declares w r (.set on name value computed)
  | associate {on : Value} (h : w.Builds r on) (name factory : Value)
      (traits strategy overrides : Option Value) :
      Declares w r (.associate on name factory traits strategy overrides)
  | initializeWith {on : Value} (h : w.Builds r on) (fn : Value) :
      Declares w r (.initializeWith on fn)
  | toCreate {on : Value} (h : w.Builds r on) (fn : Value) : Declares w r (.toCreate on fn)
  | callback {on : Value} (h : w.Builds r on) (event fn : Value) :
      Declares w r (.callback on event fn)
  | callbackMethod {on : Value} (h : w.Builds r on) (event fn : Value) :
      Declares w r (.callbackMethod on event fn)
  | registerFactory {registry : Option Value} (h : w.Means r registry) (definition : Value) :
      Declares w r (.registerFactory registry definition)
  | registerTrait {registry : Option Value} (h : w.Means r registry)
      (scope name definition : Value) :
      Declares w r (.registerTrait registry scope name definition)
  | touch {registry : Option Value} (h : w.Means r registry) : Declares w r (.touch registry)
  | resetRegistry {registry : Option Value} (h : w.Means r registry) :
      Declares w r (.resetRegistry registry)

namespace Action

theorem Settles.bind_nothing {a : Action Unit} (h : Settles r a w) : Settles r (nothing a) w :=
  h.bind_pure

/-- A trait that no registry knows yet is beside every registry. -/
theorem keeps_newTrait (name : String) : Keeps (.aside r) (newTrait (.text name)) := by
  have hmake : newTrait (.text name) =
      (do return .definition (← newDefinition { name := name })) := rfl
  rw [hmake]
  exact keeps_bind (keeps_newDefinition (plain_empty name)) fun _ => keeps_pure _

/-- So is a factory that no registry knows yet, whatever its parent is. -/
theorem keeps_newFactory (name : String) (parent model : Value) :
    Keeps (.aside r) (newFactory (.text name) parent model) := by
  have hmake : ∀ parent : Value, Keeps (.aside r) (do
      return .definition (← newDefinition
        { name := name, template := some { parent := parent, model := model } }) :
          Action Value) := fun parent =>
    keeps_bind (keeps_newDefinition (plain_factory name [] parent model)) fun _ => keeps_pure _
  unfold newFactory givenName
  simp only [pure_bind]
  split
  · exact hmake .null
  · exact keeps_bind (keeps_map _ (keeps_definitionOf _).aside) hmake

/-- **Every declaration settles**: it raises the generation of the registry, or fails and leaves
the registry and all definitions as they were. -/
theorem settles_command (hn : w.Neat r reg) {c : Command} (h : Declares w r c) (host : Host) :
    Settles r (performCommand host c) w := by
  cases h with
  | defineFactory h name model parent traits =>
    exact settles_of_execute h (settles_defineFactory hn name model parent traits)
  | defineTrait h name => exact settles_of_execute h (settles_defineTrait hn name)
  | childFactory h name model traits => exact settles_childFactory hn h name model traits
  | localTrait h name => exact settles_localTrait hn h name
  | set h name value computed => exact settles_setAttribute h name value computed
  | associate h name factory traits strategy overrides =>
    exact settles_associate h name factory traits strategy overrides
  | initializeWith h fn => exact settles_initializeWith h fn
  | toCreate h fn => exact settles_toCreate h fn
  | callback h event fn => exact settles_callback h event fn
  | callbackMethod h event fn => exact settles_callbackMethod h event fn
  | registerFactory h definition =>
    refine settles_of_execute h (settles_bind (keeps_definitionOf definition).aside
      fun d w₁ h₁ => ?_)
    exact (settles_registerFactory (h₁.neat reg hn) d).bind_pure
  | registerTrait h scope name definition =>
    refine settles_of_execute h (settles_bind (keeps_definitionOf definition).aside
      fun d w₁ h₁ => ?_)
    exact (settles_registerTrait (h₁.neat reg hn) scope name d).bind_pure
  | touch h => exact (settles_of_execute h settles_touch).bind_nothing
  | resetRegistry h => exact (settles_of_execute h (settles_resetRegistry hn)).bind_nothing

end Action

end TraitFactory
