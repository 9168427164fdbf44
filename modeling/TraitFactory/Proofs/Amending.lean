import TraitFactory.Proofs.Editing

/-!
# What declarations change

Whatever a declaration is given, and whether it succeeds or fails, it edits the world and does nothing
else to it. All declarations but a reset only add something: what was listed before stays listed in
its place.
-/

namespace TraitFactory

/-! ## 1. Actions that only add -/

namespace Action

variable {α β : Type} {w w' : World} {r : RegistryId} {reg : Registry} {d : DefinitionId}

/-- **An action that only edits** a world, whatever comes of it. -/
def Edits (a : Action α) (w : World) : Prop := w.Edited (a.execute w).2

/-- **An action that only adds** to a world, whatever comes of it. -/
def Accrues (a : Action α) (w : World) : Prop :=
  w.Edited (a.execute w).2 ∧ w.Precedes (a.execute w).2

theorem Accrues.edits {a : Action α} (h : Accrues a w) : Edits a w := h.1

theorem accrues_of_keeps {a : Action α} (h : Keeps .retained a) : Accrues a w :=
  ⟨World.Retained.edited (h w), World.Retained.precedes (h w)⟩

theorem accrues_fail (c : Cause) : Accrues (fail c : Action α) w := accrues_of_keeps (keeps_fail c)

theorem edits_bind {a : Action β} {f : β → Action α} (ha : Edits a w)
    (hf : ∀ x w', a.execute w = (.ok x, w') → Edits (f x) w') : Edits (a >>= f) w := by
  unfold Edits at ha ⊢
  rcases hexec : a.execute w with ⟨e | x, w'⟩ <;> rw [hexec] at ha
  · rwa [execute_bind_error hexec]
  · rw [execute_bind_ok hexec]
    exact ha.trans (hf x w' hexec)

theorem accrues_bind {a : Action β} {f : β → Action α} (ha : Accrues a w)
    (hf : ∀ x w', a.execute w = (.ok x, w') → w.Edited w' → Accrues (f x) w') :
    Accrues (a >>= f) w := by
  unfold Accrues at ha ⊢
  rcases hexec : a.execute w with ⟨e | x, w'⟩ <;> rw [hexec] at ha
  · rwa [execute_bind_error hexec]
  · rw [execute_bind_ok hexec]
    obtain ⟨hedited, hprecedes⟩ := hf x w' hexec ha.1
    exact ⟨ha.1.trans hedited, ha.2.trans hprecedes⟩

/-- What is done first may be something that declares nothing. -/
theorem accrues_retained_bind {a : Action β} {f : β → Action α} (ha : Keeps .retained a)
    (hf : ∀ x w', a.execute w = (.ok x, w') → w.Retained w' → Accrues (f x) w') :
    Accrues (a >>= f) w := by
  refine accrues_bind (accrues_of_keeps ha) fun x w' hexec _ => hf x w' hexec ?_
  have hretained := ha w
  rwa [hexec] at hretained

/-- What is done first may be looking something up. -/
theorem accrues_read_bind {a : Action β} {f : β → Action α} (ha : Keeps .same a)
    (hf : ∀ x, a.execute w = (.ok x, w) → Accrues (f x) w) : Accrues (a >>= f) w := by
  have hsame : (a.execute w).2 = w := ha w
  unfold Accrues
  rcases hexec : a.execute w with ⟨e | x, w'⟩ <;> rw [hexec] at hsame <;> obtain rfl := hsame
  · rw [execute_bind_error hexec]
    exact ⟨World.Retained.edited (.refl _), .refl _⟩
  · rw [execute_bind_ok hexec]
    exact hf x hexec

theorem accrues_getDefinition {f : Definition → Action α}
    (hf : ∀ x, w.definitions.get? d = some x → Accrues (f x) w) :
    Accrues (getDefinition d >>= f) w :=
  accrues_read_bind (keeps_getDefinition d) fun x hexec => hf x (definition_of_execute hexec).2

theorem accrues_getRegistry {f : Registry → Action α}
    (hf : ∀ reg, w.registryAt? r = some reg → Accrues (f reg) w) :
    Accrues (getRegistry r >>= f) w := by
  refine accrues_read_bind (keeps_getRegistry r) fun reg hexec => hf reg ?_
  rcases hreg : w.registryAt? r with _ | reg'
  · rw [getRegistry, execute_bind_ok (execute_get w), hreg] at hexec
    cases hexec
  · rw [execute_getRegistry hreg] at hexec
    cases hexec
    rfl

/-- Something is done at the end that is an edit and takes away nothing. -/
theorem accrues_modify {f : World → World} (h : w.Edit (f w)) (hprecedes : w.Precedes (f w)) :
    Accrues (modify f : Action PUnit) w :=
  ⟨h.edited, hprecedes⟩

theorem keeps_touch (r : RegistryId) : Keeps .retained (touch r) :=
  keeps_modify fun _ => World.retained_touch

theorem keeps_newBuilder (builder : Builder) : Keeps .retained (newBuilder builder) :=
  fun _ => World.retained_of_eq rfl (Nat.le_refl _) rfl rfl

theorem keeps_tellRegistry (on : Value) : Keeps .retained (touchFor on) := by
  unfold touchFor
  split
  · exact keeps_bind (keeps_getBuilder _) fun _ => keeps_bind (keeps_requireRegistry _) fun _ =>
      keeps_touch _
  · exact keeps_noAttribute

/-! ### Declaring on a definition -/

theorem accrues_declareMade (hw : w.Ordinary) (d : DefinitionId) (name : Value)
    (value : AttributeValue) (object : ObjectId) : Accrues (declareMade d name value object) w := by
  refine accrues_getDefinition fun x hd => ?_
  obtain ⟨s, hs, _⟩ := (hw.definitions d x hd).attributes
  dsimp only
  rw [hs]
  -- The declaration that is made bears the label of the definition.
  have hmade : Keeps .retained (do
      newDeclaration (← attributeName name) value object x.label) :=
    keeps_bind (keeps_nameOr _ name) fun _ => keeps_newDeclaration _ _ _ _
  refine accrues_retained_bind hmade fun declaration w' hexec hr =>
    accrues_modify ?_ (World.precedes_unlisted d (fun _ => rfl) (fun _ => rfl) fun _ => rfl)
  have horigin : declaration.origin = x.label := by
    obtain ⟨_, w₁, _, hnew⟩ := ok_of_execute_bind hexec
    cases hnew
    rfl
  exact .declared (by rw [hr.definitions]; exact hd) horigin

theorem accrues_declare (hw : w.Ordinary) (d : DefinitionId) (name value : Value) :
    Accrues (declare d name value) w :=
  accrues_retained_bind (keeps_attributeValue value false) fun _ _ _ hr =>
    accrues_declareMade (hw.retained hr) d name _ _

theorem accrues_declareNew (hw : w.Ordinary) (d : DefinitionId) (name : Value)
    (value : AttributeValue) : Accrues (declareNew d name value) w :=
  accrues_retained_bind (keeps_place _) fun _ _ _ hr =>
    accrues_declareMade (hw.retained hr) d name value _

theorem accrues_applyTrait (hw : w.Ordinary) (d : DefinitionId) (ref : Value) :
    Accrues (applyTrait d ref) w := by
  refine accrues_getDefinition fun x hd => ?_
  obtain ⟨names, hnames⟩ := (hw.definitions d x hd).appliedTraits
  rw [hnames]
  exact accrues_read_bind (keeps_nameOr _ ref) fun name _ =>
    accrues_modify (.applied d name) (World.precedes_modifyDefinition fun x _ => .apply x name)

theorem accrues_addCallback (hw : w.Ordinary) (d : DefinitionId) (event fn : Value) :
    Accrues (addCallback d event fn) w := by
  refine accrues_read_bind (keeps_eventOf event) fun e _ => ?_
  dsimp only
  split
  · exact accrues_fail _
  · refine accrues_getDefinition fun x hd => ?_
    obtain ⟨cs, hcs⟩ := (hw.definitions d x hd).callbacks
    -- The callback is a new object, and stands in the definition at once.
    let c : Callback := ⟨e, fn, x.label, ⟨w.heap.size⟩⟩
    have hplaced : c.object.index < (w.heap.alloc (.callback c)).2.size := by
      simp [c, Heap.alloc, Heap.size]
    have hcalled := World.Edit.called (c := c) hd rfl (Nat.le_refl _) hplaced
    have hlisted := World.precedes_unlisted (w := { w with heap := (w.heap.alloc (.callback c)).2 })
      d (f := fun x => { x with callbacks := x.callbacks.modify (· ++ [c]) })
      (fun _ => rfl) (fun _ => rfl) fun _ => rfl
    rw [hcs]
    exact ⟨hcalled.edited, hlisted.definitions, hlisted.registries⟩

/-! ### Making and registering -/

theorem accrues_definedUnder? {t : Slot (Table DefinitionId)} {table : Table DefinitionId}
    (ht : t = .own table) {name : String} {f : Option Value → Action α}
    (hf : ∀ found, table.get? name = found → Accrues (f (found.map .definition)) w) :
    Accrues (definedUnder? t name >>= f) w := by
  subst ht
  refine accrues_read_bind (keeps_definedUnder? _ _) fun found hexec => ?_
  rw [execute_definedUnder? table name w] at hexec
  cases hexec
  exact hf _ rfl

/-- A table is changed, and then the registry is told. -/
theorem accrues_touched {f : World → World} (h : w.Edit (f w)) (hprecedes : w.Precedes (f w))
    (r : RegistryId) : Accrues (do modify f; touch r : Action Unit) w :=
  accrues_bind (accrues_modify h hprecedes) fun _ _ _ _ => accrues_of_keeps (keeps_touch r)

theorem accrues_registerFactory (hw : w.Ordinary) (r : RegistryId) (d : DefinitionId) :
    Accrues (registerFactory r d) w := by
  refine accrues_getDefinition fun x hd => ?_
  have hname : x.nameValue.asText? = some x.name := by
    rw [(hw.definitions d x hd).nameValue_eq]
    rfl
  rw [hname]
  refine accrues_getRegistry fun reg hreg => ?_
  obtain ⟨table, htable⟩ := (hw.plain r reg hreg).factories
  refine accrues_definedUnder? htable fun found hfound => ?_
  rw [htable]
  cases found with
  | some _ => exact accrues_fail _
  | none =>
    exact accrues_touched (.enrolled hreg htable hd) (World.precedes_enrol hreg htable hfound) r

/-- A trait that is there is put in a table. -/
theorem accrues_registerTrait (hw : w.Ordinary) (r : RegistryId) (scope name : Value) {x : Definition}
    (hd : w.definitions.get? d = some x) : Accrues (registerTrait r scope name d) w := by
  refine accrues_read_bind (keeps_nameOr _ name) fun name _ =>
    accrues_read_bind (keeps_scopeFactory r scope) fun found _ => ?_
  cases found with
  | none =>
    refine accrues_getRegistry fun reg hreg => ?_
    have htraits := (hw.plain r reg hreg).traits_eq
    refine accrues_definedUnder? htraits fun found hfound => ?_
    rw [htraits]
    cases found with
    | some _ => exact accrues_fail _
    | none => exact accrues_touched (.globally hreg hd name) (World.precedes_globally hreg hfound) r
  | some f =>
    refine accrues_getDefinition fun y hf => ?_
    dsimp only
    rcases ht : y.template with _ | t
    · exact accrues_of_keeps keeps_noAttribute
    · obtain ⟨table, htable⟩ := (hw.definitions f y hf).traits t ht
      refine accrues_definedUnder? htable fun found hfound => ?_
      rw [htable]
      cases found with
      | some _ => exact accrues_fail _
      | none =>
        refine accrues_touched (.locally hf ht htable hd name)
          (World.precedes_modifyDefinition fun x hx => ?_) r
        obtain rfl := Option.some.inj (hf.symm.trans hx)
        exact .withLocal ht htable hfound d

/-- A reset empties one table after the other. -/
theorem edits_resetRegistry (hw : w.Ordinary) (r : RegistryId) : Edits (resetRegistry r) w := by
  rcases hreg : w.registryAt? r with _ | reg
  · have hnothing : Accrues (resetRegistry r) w :=
      accrues_getRegistry fun reg h => nomatch hreg.symm.trans h
    exact hnothing.edits
  · obtain ⟨factories, hfactories⟩ := (hw.plain r reg hreg).factories
    have hlog : Keeps .retained (do touch r; log .info Registry.logger "Registry reset") :=
      keeps_bind (keeps_touch r) fun _ => keeps_log _ _ _
    rw [resetRegistry, Edits, execute_bind_ok (execute_getRegistry hreg), hfactories,
      (hw.plain r reg hreg).traits_eq]
    exact (World.Edit.noFactories r).edited.trans
      ((World.Edit.noTraits r).edited.trans (World.Retained.edited (hlog _)))

/-- What has just been made is there. -/
theorem accrues_newDefinition {x : Definition} (h : w.Edit (w.making x))
    {f : DefinitionId → Action α}
    (hf : ∀ d, (w.making x).definitions.get? d = some x → Accrues (f d) (w.making x)) :
    Accrues (newDefinition x >>= f) w := by
  refine accrues_bind ⟨h.edited, w.precedes_making x⟩ fun d w' hexec _ => ?_
  cases hexec
  exact hf _ (Definitions.get?_push_next _ _)

/-- A registration ends with a builder for what has been registered. -/
theorem accrues_built {a : Action Unit} (ha : Accrues a w) (builder : Builder) :
    Accrues (do a; newBuilder builder) w :=
  accrues_bind ha fun _ _ _ _ => accrues_of_keeps (keeps_newBuilder builder)

theorem parent_of_isParent (hw : w.Ordinary) (hreg : w.registryAt? r = some reg)
    {given parent : Value} (h : IsParent w reg given parent) : w.Parent parent := by
  unfold IsParent at h
  split at h
  · exact .inl rfl
  · rename_i p
    obtain ⟨_, t, ht⟩ | ⟨name, hp⟩ := h
    · obtain ⟨x, hx, _⟩ := Definitions.get?_of_template? ht
      exact .inr ⟨p, x, rfl, hx⟩
    · obtain ⟨x, hx, _⟩ := hw.names r reg hreg name p hp
      exact .inr ⟨p, x, rfl, hx⟩
  · exact h.elim

/-- A parent is nothing, or a definition that is there. -/
theorem accrues_parentOf (hw : w.Ordinary) (r : RegistryId) (given : Value) {f : Value → Action α}
    (hf : ∀ parent, w.Parent parent → Accrues (f parent) w) :
    Accrues (parentOf r given >>= f) w := by
  refine accrues_read_bind (keeps_parentOf r given) fun parent hexec => hf parent ?_
  rcases hreg : w.registryAt? r with _ | reg
  · -- Without a registry only what is given as a definition can be the parent.
    have hmissing : ∀ ref v, (findFactoryValue r ref).execute w ≠ (.ok v, w) := by
      intro ref v hfind
      obtain ⟨_, w₁, hread, hfind⟩ := ok_of_execute_bind hfind
      obtain ⟨_, rfl⟩ := execute_nameOr hread
      obtain ⟨_, _, hget, _⟩ := ok_of_execute_bind hfind
      rw [getRegistry, execute_bind_ok (execute_get _), hreg] at hget
      cases hget
    unfold parentOf at hexec
    split at hexec
    · cases hexec
      exact .inl rfl
    · obtain ⟨x, w₁, hget, hrest⟩ := ok_of_execute_bind hexec
      obtain ⟨rfl, hd⟩ := definition_of_execute hget
      split at hrest
      · cases hrest
        exact .inr ⟨_, x, rfl, hd⟩
      · exact absurd hrest (hmissing _ _)
    · exact absurd hexec (hmissing _ _)
  · exact parent_of_isParent hw hreg (parent_of_execute (hw.neat hreg) hexec).2

theorem accrues_defineFactory (hw : w.Ordinary) (r : RegistryId) (name model parent : Value)
    (traits : Option Value) : Accrues (defineFactory r name model parent traits) w := by
  refine accrues_parentOf hw r parent fun parent hparent =>
    accrues_read_bind (keeps_nameOr _ name) fun name _ =>
    accrues_retained_bind (keeps_elementsOf traits) fun refs w₁ _ h₁ =>
    accrues_read_bind (keeps_mapM refs fun ref => keeps_nameOr _ ref) fun applied _ => ?_
  have hmade : w₁.Edit (w₁.making (.newFactory name applied parent model)) :=
    .factory name applied model (hparent.retained h₁)
  exact accrues_newDefinition hmade fun d _ =>
    accrues_built (accrues_registerFactory ((hw.retained h₁).edit hmade) r d) _

/-- A trait is made, and registered. -/
theorem accrues_makeTrait (hw : w.Ordinary) (r : RegistryId) (scope : Value) (name : String) :
    Accrues (do
      let d ← newDefinition { name := name }
      registerTrait r scope (.text name) d
      newBuilder ⟨.definition d, .registry r, false⟩) w :=
  accrues_newDefinition (.trait name) fun _ hd =>
    accrues_built (accrues_registerTrait (hw.edit (.trait name)) r scope _ hd) _

theorem accrues_defineTrait (hw : w.Ordinary) (r : RegistryId) (name : Value) :
    Accrues (defineTrait r name) w :=
  accrues_read_bind (keeps_nameOr _ name) fun name _ => accrues_makeTrait hw r .null name

theorem accrues_localTrait (hw : w.Ordinary) (on name : Value) : Accrues (localTrait on name) w := by
  refine accrues_read_bind (keeps_factoryBuilder on) fun builder _ =>
    accrues_read_bind (keeps_nameOr _ name) fun name _ =>
    accrues_newDefinition (.trait name) fun d hd =>
    accrues_read_bind (keeps_requireRegistry _) fun r _ => ?_
  exact accrues_built (accrues_registerTrait (hw.edit (.trait name)) r _ _ hd) _

theorem accrues_childFactory (hw : w.Ordinary) (on name model : Value) (traits : Option Value) :
    Accrues (childFactory on name model traits) w :=
  accrues_read_bind (keeps_factoryBuilder on) fun _ _ =>
    accrues_read_bind (keeps_requireRegistry _) fun r _ =>
      accrues_defineFactory hw r name model _ traits

/-! ### Declaring through a builder -/

/-- A builder tells its registry of what has been edited. -/
theorem accrues_told {a : Action β} (ha : Accrues a w) (on : Value) (f : β → α) :
    Accrues (do let x ← a; touchFor on; return f x) w :=
  accrues_bind ha fun _ _ _ _ => accrues_of_keeps
    (keeps_bind (keeps_tellRegistry on) fun _ => keeps_pure _)

theorem accrues_setAttribute (hw : w.Ordinary) (on name : Value) (value : Option Value)
    (computed : Value) : Accrues (setAttribute on name value computed) w := by
  refine accrues_read_bind (keeps_declaredOn on) fun d _ => ?_
  dsimp only
  split
  · exact accrues_of_keeps (keeps_bind (keeps_written _ _) fun _ => keeps_fail_bind _ _)
  · cases value with
    | some v => exact accrues_told (accrues_declare hw d name v) on _
    | none =>
      exact accrues_read_bind (keeps_makeComputed computed) fun made _ =>
        accrues_told (accrues_declareNew hw d name made) on _

theorem accrues_associate (hw : w.Ordinary) (on name factory : Value)
    (traits strategy overrides : Option Value) :
    Accrues (associate on name factory traits strategy overrides) w :=
  accrues_read_bind (keeps_declaredOn on) fun d _ =>
    accrues_retained_bind (keeps_makeAssociation factory traits strategy overrides) fun a _ _ hr =>
      accrues_told (accrues_declareNew (hw.retained hr) d name (.association a)) on _

theorem accrues_hook (d : DefinitionId) (constructor persistor : Definition → Option Value) :
    Accrues (Parts.modifyDefinition d fun x =>
      { x with constructor := constructor x, persistor := persistor x }) w :=
  accrues_modify (.hooked d constructor persistor)
    (World.precedes_unlisted d (fun _ => rfl) (fun _ => rfl) fun _ => rfl)

theorem accrues_initializeWith (on fn : Value) : Accrues (initializeWith on fn) w :=
  accrues_read_bind (keeps_declaredOn on) fun d _ =>
    accrues_told (accrues_hook d (fun _ => fn.hook?) (·.persistor)) on _

theorem accrues_toCreate (on fn : Value) : Accrues (toCreate on fn) w :=
  accrues_read_bind (keeps_declaredOn on) fun d _ =>
    accrues_told (accrues_hook d (·.constructor) fun _ => fn.hook?) on _

theorem accrues_callback (hw : w.Ordinary) (on event fn : Value) :
    Accrues (callback on event fn) w :=
  accrues_read_bind (keeps_declaredOn on) fun d _ =>
    accrues_told (accrues_addCallback hw d event fn) on fun _ => fn

theorem accrues_callbackMethod (hw : w.Ordinary) (on event fn : Value) :
    Accrues (callbackMethod on event fn) w := by
  refine accrues_read_bind (keeps_declaredOn on) fun d _ => ?_
  split
  · exact accrues_callback hw on event fn
  · exact accrues_of_keeps keeps_noAttribute

/-- Traits are applied one after another, until one is no reference. -/
theorem accrues_forIn {xs : List β} {f : β → PUnit → Action (ForInStep PUnit)} (hw : w.Ordinary)
    (h : ∀ x w', w'.Ordinary → Accrues (f x ⟨⟩) w') : Accrues (forIn xs ⟨⟩ f) w := by
  induction xs generalizing w with
  | nil => exact accrues_of_keeps (keeps_pure _)
  | cons x xs ih =>
    rw [List.forIn_cons]
    refine accrues_bind (h x w hw) fun step w₁ _ hedited => ?_
    cases step with
    | done _ => exact accrues_of_keeps (keeps_pure _)
    | yield _ => exact ih (hw.edited hedited)

theorem accrues_apply (hw : w.Ordinary) (on traits : Value) : Accrues (apply on traits) w := by
  refine accrues_read_bind (keeps_declaredOn on) fun _ _ =>
    accrues_retained_bind (keeps_elements traits) fun refs w₁ _ h₁ => ?_
  refine accrues_bind (accrues_forIn (hw.retained h₁) fun ref w' hw' => ?_) fun _ _ _ _ =>
    accrues_of_keeps (keeps_bind (keeps_tellRegistry on) fun _ => keeps_pure _)
  exact accrues_read_bind (keeps_declaredOn on) fun d _ =>
    accrues_bind (accrues_applyTrait hw' d ref) fun _ _ _ _ => accrues_of_keeps (keeps_pure _)

end Action

/-! ## 2. Commands -/

namespace Command

/-- **Whether a command declares something**: it makes, changes, registers or forgets definitions,
or does so to a registry. What is made by hand has a text for its name. -/
def declares : Command → Bool
  | .defineFactory .. | .defineTrait .. | .childFactory .. | .localTrait .. | .set ..
  | .associate .. | .apply .. | .initializeWith .. | .toCreate .. | .callback ..
  | .callbackMethod .. | .newTrait (.text _) | .newFactory (.text _) _ _ | .registerFactory ..
  | .registerTrait .. | .declare .. | .applyTrait .. | .addCallback .. | .touch .. | .newRegistry
  | .resetRegistry .. | .invalidate .. | .setCache .. => true
  | _ => false

/-- Whether a command forgets what is registered. -/
def forgets : Command → Bool
  | .resetRegistry .. => true
  | _ => false

/-- What a command refers to by hand is there. -/
def Refers (w : World) : Command → Prop
  | .registerTrait _ _ _ definition => ∀ d, w.meant? definition = some d →
    ∃ x, w.definitions.get? d = some x
  | .newFactory _ parent _ => ∀ d, w.meant? parent = some d →
    ∃ x, w.definitions.get? d = some x
  | _ => True

end Command

namespace Action

variable {α β : Type} {w : World} {r : RegistryId}

theorem keeps_setCache (r : RegistryId) (flag : Value) : Keeps .retained (setCache r flag) :=
  keeps_bind keeps_get fun _ => keeps_bind (keeps_resolverOf r) fun _ => keeps_modify fun _ =>
    World.retained_modifyRegistry fun _ _ =>
      ⟨rfl, rfl, fun hplain => { hplain with }, fun _ _ h => h, fun _ _ h => h⟩

theorem accrues_invalidate (hw : w.Ordinary) (r : RegistryId) : Accrues (invalidate r) w := by
  rcases hreg : w.registryAt? r with _ | reg
  · refine accrues_bind (accrues_of_keeps (keeps_resolverOf r)) fun q w' hexec _ => ?_
    rw [resolverOf, getRegistry, bind_assoc, execute_bind_ok (execute_get w), hreg] at hexec
    cases hexec
  · unfold Accrues
    rw [execute_invalidate (hw.neat hreg)]
    -- Nothing is cached any longer in a registry whose cache was cleared.
    refine (fun h => ⟨World.Retained.edited h, World.Retained.precedes h⟩ : w.Retained _ → _)
      (World.retained_modifyRegistry fun reg' hreg' => ?_)
    obtain rfl := Option.some.inj (hreg.symm.trans hreg')
    exact {
      factories := rfl
      traits := rfl
      plain := fun hplain => { hplain with }
      plans := fun _ _ h => by cases h
      shared := fun _ _ h => by cases h }

theorem accrues_nothing {a : Action Unit} (ha : Accrues a w) : Accrues (nothing a) w :=
  accrues_bind ha fun _ _ _ _ => accrues_of_keeps (keeps_pure _)

/-- What is registered is looked up, and given back in the end. -/
theorem accrues_giving {a : Action Unit} (ha : Accrues a w) (v : Value) :
    Accrues (do a; return v) w :=
  accrues_bind ha fun _ _ _ _ => accrues_of_keeps (keeps_pure v)

theorem accrues_newFactory (name : String) {parent : Value} (model : Value)
    (hrefers : ∀ d, w.meant? parent = some d → ∃ x, w.definitions.get? d = some x) :
    Accrues (newFactory (.text name) parent model) w := by
  have hmake : ∀ parent : Value, w.Parent parent → Accrues (do
      return .definition (← newDefinition (.newFactory name [] parent model)) : Action Value) w :=
    fun parent hparent => accrues_newDefinition (.factory name [] model hparent) fun _ _ =>
      accrues_of_keeps (keeps_pure _)
  refine accrues_read_bind (keeps_pure _) fun given hgiven => ?_
  cases hgiven
  dsimp only
  split
  · exact hmake .null (.inl rfl)
  · refine accrues_read_bind (keeps_map _ (keeps_definitionOf _)) fun parent' hread =>
      hmake parent' ?_
    rw [← bind_pure_comp] at hread
    obtain ⟨p, w₁, hdefinition, hreturn⟩ := ok_of_execute_bind hread
    obtain ⟨rfl, hmeant⟩ := meant_of_execute hdefinition
    cases hreturn
    obtain ⟨x, hx⟩ := hrefers p hmeant
    exact .inr ⟨p, x, rfl, hx⟩

/-- **Every declaration but a reset only adds to the world**, whatever comes of it. -/
theorem accrues_command (hw : w.Ordinary) {c : Command} (hc : c.declares) (hkeeps : c.forgets = false)
    (hrefers : c.Refers w) (host : Host) : Accrues (performCommand host c) w := by
  have hregistry : ∀ {registry : Option Value} {f : RegistryId → Action Value},
      (∀ r, Accrues (f r) w) → Accrues (registryArgument registry >>= f) w := fun hf =>
    accrues_read_bind (keeps_registryArgument _) fun r _ => hf r
  have hdefinition : ∀ {definition : Value} {f : DefinitionId → Action Unit},
      (∀ d, Accrues (f d) w) → Accrues (definitionOf definition >>= f) w := fun hf =>
    accrues_read_bind (keeps_definitionOf _) fun d _ => hf d
  unfold Command.declares at hc
  split at hc
  case h_1 => exact hregistry fun r => accrues_defineFactory hw r _ _ _ _
  case h_2 => exact hregistry fun r => accrues_defineTrait hw r _
  case h_3 => exact accrues_childFactory hw _ _ _ _
  case h_4 => exact accrues_localTrait hw _ _
  case h_5 => exact accrues_setAttribute hw _ _ _ _
  case h_6 => exact accrues_associate hw _ _ _ _ _ _
  case h_7 => exact accrues_apply hw _ _
  case h_8 => exact accrues_initializeWith _ _
  case h_9 => exact accrues_toCreate _ _
  case h_10 => exact accrues_callback hw _ _ _
  case h_11 => exact accrues_callbackMethod hw _ _ _
  case h_12 name =>
    exact accrues_newDefinition (.trait name) fun _ _ => accrues_of_keeps (keeps_pure _)
  case h_13 name parent model => exact accrues_newFactory name model hrefers
  case h_14 =>
    exact hregistry fun r => accrues_read_bind (keeps_definitionOf _) fun d _ =>
      accrues_giving (accrues_registerFactory hw r d) _
  case h_15 =>
    refine hregistry fun r => accrues_read_bind (keeps_definitionOf _) fun d hexec => ?_
    obtain ⟨x, hx⟩ := hrefers d (meant_of_execute hexec).2
    exact accrues_giving (accrues_registerTrait hw r _ _ hx) _
  case h_16 => exact accrues_nothing (hdefinition fun d => accrues_declare hw d _ _)
  case h_17 => exact accrues_nothing (hdefinition fun d => accrues_applyTrait hw d _)
  case h_18 =>
    exact accrues_read_bind (keeps_definitionOf _) fun d _ =>
      accrues_bind (accrues_addCallback hw d _ _) fun _ _ _ _ => accrues_of_keeps (keeps_pure _)
  case h_19 =>
    exact accrues_nothing (accrues_read_bind (keeps_registryArgument _) fun r _ =>
      accrues_of_keeps (keeps_touch r))
  case h_20 =>
    have hnew : Keeps .retained newRegistry := fun _ => World.retained_newRegistry
    exact accrues_of_keeps (keeps_bind hnew fun _ => keeps_pure _)
  case h_21 => cases hkeeps
  case h_22 =>
    exact accrues_nothing (accrues_read_bind (keeps_registryArgument _) fun r _ =>
      accrues_invalidate hw r)
  case h_23 =>
    exact accrues_nothing (accrues_read_bind (keeps_registryArgument _) fun r _ =>
      accrues_of_keeps (keeps_setCache r _))
  case h_24 => cases hc

/-- **Every declaration edits the world**, and does nothing else to it, whatever comes of it. -/
theorem edits_command (hw : w.Ordinary) {c : Command} (hc : c.declares) (hrefers : c.Refers w)
    (host : Host) : Edits (performCommand host c) w := by
  rcases hkeeps : c.forgets with _ | _
  · exact (accrues_command hw hc hkeeps hrefers host).edits
  · unfold Command.forgets at hkeeps
    split at hkeeps
    · rename_i registry
      have hreset : Edits (do resetRegistry (← registryArgument registry)) w := by
        refine edits_bind (accrues_of_keeps (keeps_registryArgument _)).edits fun r w' hexec => ?_
        have hsame : w' = w := by
          have hread := keeps_registryArgument (F := .same) registry w
          rwa [hexec] at hread
        exact hsame ▸ edits_resetRegistry hw r
      exact edits_bind hreset fun _ _ _ => (accrues_of_keeps (keeps_pure _)).edits
    · cases hkeeps

end Action

end TraitFactory
