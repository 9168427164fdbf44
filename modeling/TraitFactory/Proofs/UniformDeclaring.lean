import TraitFactory.Builder
import TraitFactory.Proofs.UniformParts
import TraitFactory.Proofs.UniformRuns

/-!
# What is declared alike

Names are looked up, definitions registered and declarations made in the same way in alike worlds.
Every change of a registry raises its count, so that nothing in its cache is of any age that counts.
-/

namespace TraitFactory

namespace Action

variable [Scrutiny] {α : Type} {Q : α → Prop} {w w' : World}

/-! ## 1. Looking up -/

theorem uniform_requireDefinition (v : Value) : Uniform (requireDefinition v) := by
  unfold requireDefinition
  split
  · exact uniform_pure _
  · exact uniformWith_noAttribute

theorem uniform_definedUnder? (t : Slot (Table DefinitionId)) (name : String) :
    Uniform (definedUnder? t name) :=
  uniformWith_get (fun w m => by rw [World.definedUnder?_withMargin]) fun _ =>
    uniform_liftExcept _

theorem uniform_findFactoryValue (r : RegistryId) (ref : Value) :
    Uniform (findFactoryValue r ref) := by
  refine uniform_bind (uniform_nameOr _ _) fun name =>
    uniformWith_getRegistry r (fun reg reg' h => by rw [h.factories]) fun reg _ =>
    uniform_bind (uniform_definedUnder? _ _) fun found => ?_
  cases found with
  | some v => exact uniform_pure _
  | none => exact uniformWith_fail _

theorem uniform_findFactory (r : RegistryId) (ref : Value) : Uniform (findFactory r ref) :=
  uniform_bind (uniform_findFactoryValue r ref) uniform_requireDefinition

theorem uniform_scopeFactory (r : RegistryId) (scope : Value) : Uniform (scopeFactory r scope) := by
  have hnamed : ∀ ref, Uniform (some <$> findFactory r ref) := fun ref =>
    uniform_map _ (uniform_findFactory r ref)
  unfold scopeFactory
  split
  · exact uniform_pure _
  · split
    · refine uniform_bind (uniform_getDefinition _) fun definition => ?_
      split
      · exact uniform_pure _
      · exact hnamed _
    · exact hnamed _

theorem uniform_resolveTraitValue (r : RegistryId) (scope ref : Value) :
    Uniform (resolveTraitValue r scope ref) := by
  refine uniform_bind (uniform_nameOr _ _) fun name =>
    uniform_bind (uniform_scopeFactory r scope) fun factory =>
    uniformWith_get (fun w m => by rw [World.findTrait?_withMargin]; rfl) fun w =>
    uniformWith_getRegistry r (fun reg reg' h => by rw [h.traits]) fun reg _ =>
    uniform_bind (uniform_liftExcept _) fun found => ?_
  cases found with
  | some d => exact uniform_pure _
  | none => exact uniformWith_throw _

/-! ## 2. Tables -/

/-- An object that is changed in alike worlds, whichever it is. -/
theorem Agree.setObject (hw : w.Alike w') (o : ObjectId) (x : Object) :
    Agree (fun _ => True) ((set (w.setObject o x) : Action PUnit).execute w)
      ((set (w'.setObject o x) : Action PUnit).execute w') := uniform_setObject o x w w' hw

theorem uniform_addToGiven (table name : Value) (d : DefinitionId) :
    Uniform (addToGiven table name d) := by
  refine uniformWith_get_bind fun w w' hw => ?_
  have hheap : w'.heap = w.heap := by rw [hw.rest]; rfl
  have hkey : w'.isKey = w.isKey := by rw [hw.rest, World.isKey_withMargin]
  have hinsert : w'.insertEntry = w.insertEntry := by
    rw [hw.rest, World.insertEntry_withMargin]
  rw [hheap, hkey, hinsert]
  split
  · split
    · exact agree_fail_bind hw _ _ _
    · exact Agree.setObject hw _ _
  · exact uniformWith_wrongType w w' hw

theorem uniform_addToTable (t : Slot (Table DefinitionId)) (name : String) (d : DefinitionId) :
    Uniform (addToTable t name d) := by
  cases t with
  | own t => exact uniform_pure _
  | given v => exact uniform_bind (uniform_addToGiven v _ d) fun _ => uniform_pure _

theorem uniform_clearTable (t : Slot (Table DefinitionId)) : Uniform (clearTable t) := by
  cases t with
  | own t => exact uniform_pure _
  | given v =>
    refine uniformWith_get_bind fun w w' hw => ?_
    have hheap : w'.heap = w.heap := by rw [hw.rest]; rfl
    rw [hheap]
    dsimp only
    split
    · exact agree_bind (Agree.setObject hw _ _) fun _ _ _ _ _ _ h => uniform_pure _ _ _ h
    · exact agree_fail_bind hw _ _ _

theorem uniform_setFactories (r : RegistryId) (t : Slot (Table DefinitionId)) :
    Uniform (modifyRegistry r fun reg => { reg with factories := t }) :=
  uniform_modifyRegistry r fun _ _ h => h.withFactories t

theorem uniform_setTraits (r : RegistryId) (t : Slot (Table DefinitionId)) :
    Uniform (modifyRegistry r fun reg => { reg with traits := t }) :=
  uniform_modifyRegistry r fun _ _ h => h.withTraits t

/-! ## 3. Registering -/

theorem uniform_registerUnnamed (r : RegistryId) (d : DefinitionId) (name : Value) :
    Uniform (registerUnnamed r d name) := by
  have htable : Uniform (do
      Parts.handedOut (← getRegistry r).factories Parts.definitionTable fun s =>
        modifyRegistry r fun reg => { reg with factories := s }) :=
    uniformWith_getRegistry r (fun reg reg' h => by rw [h.factories]) fun _ _ =>
      Parts.uniform_handedOut _ (fun _ => uniform_alloc _) fun _ => uniform_setFactories r _
  refine uniformWith_get (fun w m => by rw [World.isKey_withMargin]) fun w =>
    uniformWith_refusing uniformWith_wrongType ?_
  rw [← bind_assoc]
  refine uniform_bind htable fun table => uniformWith_get
    (fun w m => by rw [World.entryValue?_withMargin]; rfl) fun w => ?_
  have hadd : Uniform (do addToGiven table name d; touch r) :=
    uniform_bind (uniform_addToGiven _ _ _) fun _ => uniform_touch r
  split
  · dsimp only
    split
    · exact uniform_bind (uniform_getDefinition d) fun _ =>
        uniform_bind (uniformWith_fail _) fun _ => hadd
    · exact hadd
  · exact uniformWith_wrongType

theorem uniform_registerFactory (r : RegistryId) (d : DefinitionId) :
    Uniform (registerFactory r d) := by
  refine uniform_bind (uniform_getDefinition d) fun definition => ?_
  split
  · exact uniform_registerUnnamed r d _
  · rename_i name _
    refine uniformWith_getRegistry r (fun reg reg' h => by rw [h.factories]) fun reg _ =>
      uniform_bind (uniform_definedUnder? _ _) fun found => ?_
    have hadd : Uniform (do
        let factories ← addToTable reg.factories name d
        modifyRegistry r fun reg => { reg with factories := factories }
        touch r) :=
      uniform_bind (uniform_addToTable _ _ _) fun _ => uniform_bind (uniform_setFactories r _)
        fun _ => uniform_touch r
    split
    · exact uniform_bind (uniformWith_fail _) fun _ => hadd
    · exact hadd

theorem uniform_registerGlobalTrait (r : RegistryId) (name : String) (d : DefinitionId) :
    Uniform (registerGlobalTrait r name d) := by
  refine uniformWith_getRegistry r (fun reg reg' h => by rw [h.traits]) fun reg _ =>
    uniform_bind (uniform_definedUnder? _ _) fun found => ?_
  have hadd : Uniform (do
      let traits ← addToTable reg.traits name d
      modifyRegistry r fun reg => { reg with traits := traits }
      touch r) :=
    uniform_bind (uniform_addToTable _ _ _) fun _ => uniform_bind (uniform_setTraits r _)
      fun _ => uniform_touch r
  split
  · exact uniform_bind (uniformWith_fail _) fun _ => hadd
  · exact hadd

theorem uniform_registerLocalTrait (r : RegistryId) (f : DefinitionId) (name : String)
    (d : DefinitionId) : Uniform (registerLocalTrait r f name d) := by
  refine uniform_bind (uniform_getDefinition f) fun factory => ?_
  split
  · exact uniformWith_noAttribute
  · rename_i t _
    refine uniform_bind (uniform_definedUnder? _ _) fun found => ?_
    have hadd : Uniform (do
        let traits ← addToTable t.traits name d
        Parts.modifyDefinition f fun factory =>
          factory.modifyTemplate fun t => { t with traits := traits }
        touch r) :=
      uniform_bind (uniform_addToTable _ _ _) fun _ => uniform_bind (uniform_modifyDefinition f _)
        fun _ => uniform_touch r
    split
    · exact uniform_bind (uniformWith_fail _) fun _ => hadd
    · exact hadd

theorem uniform_registerTrait (r : RegistryId) (scope name : Value) (d : DefinitionId) :
    Uniform (registerTrait r scope name d) := by
  refine uniform_bind (uniform_nameOr _ _) fun name =>
    uniform_bind (uniform_scopeFactory r scope) fun factory => ?_
  cases factory with
  | none => exact uniform_registerGlobalTrait r name d
  | some f => exact uniform_registerLocalTrait r f name d

/-- **A registry is reset alike.** -/
theorem uniform_resetRegistry (r : RegistryId) : Uniform (resetRegistry r) :=
  uniformWith_getRegistry r (fun reg reg' h => by rw [h.factories, h.traits]) fun _ _ =>
    uniform_bind (uniform_clearTable _) fun _ => uniform_bind (uniform_setFactories r _) fun _ =>
    uniform_bind (uniform_clearTable _) fun _ => uniform_bind (uniform_setTraits r _) fun _ =>
    uniform_bind (uniform_touch r) fun _ => uniform_log _ _ _

/-! ## 4. Making attribute values -/

theorem uniform_fixedStrategy (v : Option Value) : Uniform (fixedStrategy v) := by
  unfold fixedStrategy
  split
  · exact uniform_pure _
  · exact uniform_pure _
  · refine uniformWith_get (fun w m => by rw [World.takenText_withMargin]) fun w =>
      uniform_bind (uniform_ofCause _) fun name => ?_
    split
    · exact uniform_pure _
    · exact uniformWith_fail _

theorem uniform_makeAssociation (factory : Value) (traits strategy overrides : Option Value) :
    Uniform (makeAssociation factory traits strategy overrides) := by
  refine uniform_bind (uniform_elementsOf traits) fun traits =>
    uniform_bind (uniform_keywordsOf overrides) fun entries => ?_
  have hentry : ∀ e : Value × Value, Uniform (do return (← attributeName e.1, e.2)) := fun e =>
    uniform_bind (uniform_nameOr _ _) fun _ => uniform_pure _
  have hmade : ∀ factory : Option String, Uniform (do
      let traits ← traits.mapM traitName
      let entries ← entries.mapM fun e => return (← attributeName e.1, e.2)
      let strategy ← fixedStrategy strategy
      let overrides ← Parts.dict ((Table.ofList entries).entries.map fun e => (.text e.1, e.2))
      return (⟨factory, traits, overrides, strategy⟩ : Association)) := fun factory =>
    uniform_bind (uniform_mapM _ fun _ => uniform_nameOr _ _) fun _ =>
      uniform_bind (uniform_mapM _ hentry) fun _ =>
      uniform_bind (uniform_fixedStrategy _) fun _ => uniform_bind (uniform_alloc _) fun _ =>
      uniform_pure _
  have hall : Uniform (do
      let factory ← if factory = .null then pure none else some <$> factoryName factory
      let traits ← traits.mapM traitName
      let entries ← entries.mapM fun e => return (← attributeName e.1, e.2)
      let strategy ← fixedStrategy strategy
      let overrides ← Parts.dict ((Table.ofList entries).entries.map fun e => (.text e.1, e.2))
      return (⟨factory, traits, overrides, strategy⟩ : Association)) := by
    dsimp only
    split
    · exact uniform_bind (uniform_pure _) hmade
    · exact uniform_bind (uniform_map _ (uniform_nameOr _ _)) hmade
  dsimp only
  split
  · exact uniform_bind uniformWith_wrongType fun _ => hall
  · exact hall

theorem uniform_makeComputed (fn : Value) : Uniform (makeComputed fn) := by
  unfold makeComputed
  split
  · exact uniform_pure _
  · exact uniformWith_fail _

/-! ## 5. Declaring on definitions -/

theorem uniform_attributeSetAt (o : ObjectId) : Uniform (attributeSetAt o) := by
  refine uniformWith_get (fun _ _ => rfl) fun w => ?_
  split
  · exact uniform_pure _
  · exact uniformWith_noAttribute

theorem uniform_declareMade (d : DefinitionId) (name : Value) (value : AttributeValue)
    (object : ObjectId) : Uniform (declareMade d name value object) := by
  refine uniform_bind (uniform_getDefinition d) fun definition => ?_
  have hmade : Uniform (do
      newDeclaration (← attributeName name) value object definition.label) :=
    uniform_bind (uniform_nameOr _ _) fun _ => uniform_newDeclaration _ _ _ _
  dsimp only
  split
  · exact uniform_bind hmade fun _ => uniform_modifyDefinition d _
  · exact uniform_bind (uniform_attributeSetAt _) fun _ => uniform_bind hmade fun _ =>
      uniform_setObject _ _
  · exact uniformWith_noAttribute

theorem uniform_declare (d : DefinitionId) (name value : Value) : Uniform (declare d name value) :=
  uniform_bind (uniform_attributeValue _ _) fun _ => uniform_declareMade _ _ _ _

theorem uniform_declareNew (d : DefinitionId) (name : Value) (value : AttributeValue) :
    Uniform (declareNew d name value) :=
  uniform_bind (uniform_place _) fun _ => uniform_declareMade _ _ _ _

theorem uniform_appendTo (list : Value) {make : Action Value} (h : Uniform make) :
    Uniform (appendTo list make) := by
  refine uniformWith_get (fun _ _ => rfl) fun w => ?_
  split
  · refine uniform_bind h fun v => uniformWith_get (fun _ _ => rfl) fun w => ?_
    split
    · exact uniform_setObject _ _
    · exact uniformWith_noAttribute
  · exact uniformWith_noAttribute

theorem uniform_applyTrait (d : DefinitionId) (ref : Value) : Uniform (applyTrait d ref) := by
  refine uniform_bind (uniform_getDefinition d) fun definition => ?_
  split
  · exact uniform_bind (uniform_nameOr _ _) fun _ => uniform_modifyDefinition d _
  · exact uniform_appendTo _ (uniform_bind (uniform_nameOr _ _) fun _ => uniform_pure _)

theorem uniform_eventOf (v : Value) : Uniform (eventOf v) := by
  unfold eventOf
  split
  · exact uniform_pure _
  · exact uniform_bind (uniform_written _ _) fun _ => uniformWith_fail _

theorem uniform_addToCallbacks (table : Value) (c : Callback) :
    Uniform (addToCallbacks table c) := by
  refine uniformWith_get (fun w m => by rw [World.entryValue?_withMargin]; rfl) fun w => ?_
  split
  · split
    · exact uniform_appendTo _ (uniform_pure _)
    · refine uniform_bind (uniform_alloc _) fun _ => uniform_modify fun w m => ?_
      rw [World.insertEntry_withMargin]
      rfl
  · exact uniformWith_noAttribute

theorem uniform_addCallback (d : DefinitionId) (event fn : Value) :
    Uniform (addCallback d event fn) := by
  refine uniform_bind (uniform_eventOf event) fun e => ?_
  refine uniformWith_refusing (uniformWith_fail _) ?_
  refine uniform_bind (uniform_getDefinition d) fun definition =>
    uniform_bind (uniform_newCallback _ _ _) fun c => ?_
  dsimp only
  split
  · exact uniform_bind (uniform_modifyDefinition d _) fun _ => uniform_pure _
  · exact uniform_bind (uniform_addToCallbacks _ _) fun _ => uniform_pure _

/-! ## 6. Builders -/

theorem uniform_declaredOn (on : Value) : Uniform (declaredOn on) := by
  unfold declaredOn
  split
  · exact uniform_bind (uniform_getBuilder _) fun _ => uniform_requireDefinition _
  · exact uniformWith_noAttribute

theorem uniform_requireRegistry (v : Value) : Uniform (requireRegistry v) := by
  unfold requireRegistry
  split
  · exact uniform_pure _
  · exact uniformWith_noAttribute

theorem uniform_touchFor (on : Value) : Uniform (touchFor on) := by
  unfold touchFor
  split
  · exact uniform_bind (uniform_getBuilder _) fun _ =>
      uniform_bind (uniform_requireRegistry _) fun r => uniform_touch r
  · exact uniformWith_noAttribute

theorem uniform_factoryBuilder (on : Value) : Uniform (factoryBuilder on) := by
  unfold factoryBuilder
  split
  · refine uniform_bind (uniform_getBuilder _) fun builder => ?_
    split
    · exact uniform_pure _
    · exact uniformWith_noAttribute
  · exact uniformWith_noAttribute

theorem uniform_definitionOf (on : Value) : Uniform (definitionOf on) := by
  unfold definitionOf
  split
  · exact uniform_pure _
  · exact uniform_bind (uniform_getBuilder _) fun _ => uniform_requireDefinition _
  · exact uniformWith_noAttribute

/-- A declaration through a builder raises the count of the builder's registry. -/
theorem uniform_touched {a : Action Unit} (h : Uniform a) (on v : Value) :
    Uniform (do a; touchFor on; return v) :=
  uniform_bind h fun _ => uniform_bind (uniform_touchFor on) fun _ => uniform_pure v

theorem uniform_setAttribute (on name : Value) (value : Option Value) (computed : Value) :
    Uniform (setAttribute on name value computed) := by
  refine uniform_bind (uniform_declaredOn on) fun d => ?_
  -- Exactly one of the value and the function must be given.
  have hone : ∀ {a : Action Value}, Uniform a → Uniform (do
      if value.isNone = computed.hook?.isNone then
        fail (.valueOrComputed (← plainText name))
      a) := fun {a} ha => by
    dsimp only
    split
    · exact uniform_bind (uniform_written _ _) fun _ => uniform_bind (uniformWith_fail _) fun _ =>
        ha
    · exact ha
  cases value with
  | some v => exact hone (uniform_touched (uniform_declare d name v) on on)
  | none =>
    exact hone (uniform_bind (uniform_makeComputed computed) fun _ =>
      uniform_touched (uniform_declareNew _ _ _) on on)

theorem uniform_associate (on name factory : Value) (traits strategy overrides : Option Value) :
    Uniform (associate on name factory traits strategy overrides) :=
  uniform_bind (uniform_declaredOn on) fun _ =>
    uniform_bind (uniform_makeAssociation _ _ _ _) fun _ =>
    uniform_touched (uniform_declareNew _ _ _) on on

theorem uniform_forIn {f : α → PUnit → Action (ForInStep PUnit)} (xs : List α)
    (h : ∀ x, Uniform (f x ⟨⟩)) : Uniform (forIn xs PUnit.unit f) := by
  induction xs with
  | nil => exact uniform_pure _
  | cons x xs ih =>
    rw [List.forIn_cons]
    refine uniform_bind (h x) fun step => ?_
    cases step with
    | done _ => exact uniform_pure _
    | yield _ => exact ih

theorem uniform_apply (on traits : Value) : Uniform (apply on traits) := by
  refine uniform_bind (uniform_declaredOn on) fun _ =>
    uniform_bind (apart_elements traits).uniform fun refs =>
    uniform_bind (uniform_forIn refs fun ref => ?_) fun _ => uniform_touched (a := pure ()) 
      (uniform_pure _) on on
  exact uniform_bind (uniform_declaredOn on) fun _ => uniform_bind (uniform_applyTrait _ _) fun _ =>
    uniform_pure _

theorem uniform_initializeWith (on fn : Value) : Uniform (initializeWith on fn) :=
  uniform_bind (uniform_declaredOn on) fun _ => uniform_touched (uniform_modifyDefinition _ _) on fn

theorem uniform_toCreate (on fn : Value) : Uniform (toCreate on fn) :=
  uniform_bind (uniform_declaredOn on) fun _ => uniform_touched (uniform_modifyDefinition _ _) on fn

theorem uniform_callback (on event fn : Value) : Uniform (callback on event fn) :=
  uniform_bind (uniform_declaredOn on) fun _ => uniform_bind (uniform_addCallback _ _ _) fun _ =>
    uniform_touched (a := pure ()) (uniform_pure _) on fn

theorem uniform_callbackMethod (on event fn : Value) : Uniform (callbackMethod on event fn) := by
  refine uniform_bind (uniform_declaredOn on) fun _ => ?_
  split
  · exact uniform_callback on event fn
  · exact uniformWith_noAttribute

/-! ## 7. Making definitions -/

theorem uniform_parentOf (r : RegistryId) (parent : Value) : Uniform (parentOf r parent) := by
  unfold parentOf
  split
  · exact uniform_pure _
  · refine uniform_bind (uniform_getDefinition _) fun definition => ?_
    split
    · exact uniform_pure _
    · exact uniform_findFactoryValue r _
  · exact uniform_findFactoryValue r _

theorem uniform_defineFactory (r : RegistryId) (name model parent : Value)
    (traits : Option Value) : Uniform (defineFactory r name model parent traits) :=
  uniform_bind (uniform_parentOf r parent) fun _ => uniform_bind (uniform_nameOr _ _) fun _ =>
    uniform_bind (uniform_elementsOf traits) fun _ =>
    uniform_bind (uniform_mapM _ fun _ => uniform_nameOr _ _) fun _ =>
    uniform_bind (uniform_newDefinition _) fun d =>
    uniform_bind (uniform_registerFactory r d) fun _ => uniform_newBuilder _

theorem uniform_defineTrait (r : RegistryId) (name : Value) : Uniform (defineTrait r name) :=
  uniform_bind (uniform_nameOr _ _) fun _ => uniform_bind (uniform_newDefinition _) fun d =>
    uniform_bind (uniform_registerTrait r _ _ d) fun _ => uniform_newBuilder _

theorem uniform_localTrait (on name : Value) : Uniform (localTrait on name) :=
  uniform_bind (uniform_factoryBuilder on) fun _ => uniform_bind (uniform_nameOr _ _) fun _ =>
    uniform_bind (uniform_newDefinition _) fun d =>
    uniform_bind (uniform_requireRegistry _) fun r =>
    uniform_bind (uniform_registerTrait r _ _ d) fun _ => uniform_newBuilder _

theorem uniform_childFactory (on name model : Value) (traits : Option Value) :
    Uniform (childFactory on name model traits) :=
  uniform_bind (uniform_factoryBuilder on) fun _ => uniform_bind (uniform_requireRegistry _)
    fun r => uniform_defineFactory r _ _ _ _

theorem uniform_newTrait (name : Value) : Uniform (newTrait name) :=
  uniform_bind (uniform_givenName name) fun _ => uniform_bind (uniform_newDefinition _) fun _ =>
    uniform_pure _

theorem uniform_newFactory (name parent model : Value) : Uniform (newFactory name parent model) := by
  have hmade : ∀ (given : String × Option Value) (parent : Value), Uniform (do
      let template : Template := { parent := parent, model := model }
      return Value.definition (← newDefinition
        { name := given.1, given := given.2, template := some template })) := fun _ _ =>
    uniform_bind (uniform_newDefinition _) fun _ => uniform_pure _
  refine uniform_bind (uniform_givenName name) fun given => ?_
  dsimp only
  split
  · exact hmade given _
  · exact uniform_bind (uniform_map _ (uniform_definitionOf _)) fun _ => hmade given _

end Action

end TraitFactory
