import TraitFactory.Builder
import TraitFactory.Proofs.Idling
import TraitFactory.Runner

/-!
# What declarations are given

A declaration looks up what it is given, and makes the attribute value, the association or the
callback that it declares. Looking up changes nothing, and making something changes objects only:
both stay within every frame to which objects do not matter.
-/

namespace TraitFactory

namespace Action

variable {α : Type} {F : Frame}

/-! ## 1. What is looked up -/

theorem keeps_liftExcept (x : Except Failure α) : Keeps F (liftExcept x) := by
  cases x with
  | ok x => exact keeps_pure x
  | error e => exact keeps_throw e

theorem keeps_requireDefinition (v : Value) : Keeps F (requireDefinition v) := by
  cases v <;> first | exact keeps_pure _ | exact keeps_noAttribute

theorem keeps_requireRegistry (v : Value) : Keeps F (requireRegistry v) := by
  cases v <;> first | exact keeps_pure _ | exact keeps_noAttribute

theorem keeps_declaredOn (on : Value) : Keeps F (declaredOn on) := by
  unfold declaredOn
  split
  · exact keeps_bind (keeps_getBuilder _) fun _ => keeps_requireDefinition _
  · exact keeps_noAttribute

theorem keeps_definitionOf (v : Value) : Keeps F (definitionOf v) := by
  unfold definitionOf
  split
  · exact keeps_pure _
  · exact keeps_bind (keeps_getBuilder _) fun _ => keeps_requireDefinition _
  · exact keeps_noAttribute

theorem keeps_factoryBuilder (on : Value) : Keeps F (factoryBuilder on) := by
  unfold factoryBuilder
  split
  · refine keeps_bind (keeps_getBuilder _) fun _ => ?_
    split
    · exact keeps_pure _
    · exact keeps_noAttribute
  · exact keeps_noAttribute

theorem keeps_definedUnder? (t : Slot (Table DefinitionId)) (name : String) :
    Keeps F (definedUnder? t name) := keeps_bind keeps_get fun _ => keeps_liftExcept _

theorem keeps_findFactoryValue (r : RegistryId) (ref : Value) :
    Keeps F (findFactoryValue r ref) := by
  refine keeps_bind (keeps_nameOr _ ref) fun _ => keeps_bind (keeps_getRegistry r) fun _ =>
    keeps_bind (keeps_definedUnder? _ _) ?_
  rintro (_ | v)
  · exact keeps_fail _
  · exact keeps_pure v

theorem keeps_findFactory (r : RegistryId) (ref : Value) : Keeps F (findFactory r ref) :=
  keeps_bind (keeps_findFactoryValue r ref) fun _ => keeps_requireDefinition _

theorem keeps_scopeFactory (r : RegistryId) (scope : Value) : Keeps F (scopeFactory r scope) := by
  -- A scope that is no factory's definition is looked up as a name.
  have hfind : ∀ ref, Keeps F (some <$> findFactory r ref) := fun ref =>
    keeps_map some (keeps_findFactory r ref)
  unfold scopeFactory
  split
  · exact keeps_pure none
  · split
    · refine keeps_bind (keeps_getDefinition _) fun _ => ?_
      split
      · exact keeps_pure _
      · exact hfind _
    · exact hfind _

theorem keeps_parentOf (r : RegistryId) (parent : Value) : Keeps F (parentOf r parent) := by
  unfold parentOf
  split
  · exact keeps_pure _
  · refine keeps_bind (keeps_getDefinition _) fun _ => ?_
    split
    · exact keeps_pure _
    · exact keeps_findFactoryValue r _
  · exact keeps_findFactoryValue r _

theorem keeps_attributeSetAt (o : ObjectId) : Keeps F (attributeSetAt o) := by
  refine keeps_bind keeps_get fun w => ?_
  split
  · exact keeps_pure _
  · exact keeps_noAttribute

theorem keeps_eventOf (v : Value) : Keeps F (eventOf v) := by
  unfold eventOf
  split
  · exact keeps_pure _
  · exact keeps_bind (keeps_written _ _) fun _ => keeps_fail _

theorem keeps_makeComputed (fn : Value) : Keeps F (makeComputed fn) := by
  unfold makeComputed
  split
  · exact keeps_pure _
  · exact keeps_fail _

theorem keeps_keywordsOf (v : Option Value) : Keeps F (keywordsOf v) := by
  refine keeps_bind (keeps_entriesOf v) fun entries => ?_
  split
  · exact keeps_pure _
  · exact keeps_wrongType

theorem keeps_fixedStrategy (v : Option Value) : Keeps F (fixedStrategy v) := by
  unfold fixedStrategy
  split
  · exact keeps_pure none
  · exact keeps_pure none
  · refine keeps_bind keeps_get fun w => keeps_bind (keeps_ofCause _) fun name => ?_
    split
    · exact keeps_pure _
    · exact keeps_fail _

theorem keeps_registryOf (r : RunnerId) : Keeps F (registryOf r) := by
  refine keeps_bind (keeps_getRunner r) fun runner => ?_
  split
  · exact keeps_pure _
  · exact keeps_noAttribute

theorem keeps_requireCount (count : Value) : Keeps F (requireCount count) := by
  have hrefuse : Keeps F (do fail (.negativeCount (← plainText count)) : Action Unit) :=
    keeps_bind (keeps_written _ _) fun _ => keeps_fail _
  unfold requireCount
  dsimp only
  split
  · split
    · exact hrefuse
    · exact keeps_pure _
  · split
    · exact hrefuse
    · exact keeps_pure _
  · exact keeps_wrongType

/-! ## 2. What is made -/

variable [F.Lenient]

theorem keeps_attributeValue (v : Value) (shared : Bool) : Keeps F (attributeValue v shared) := by
  refine keeps_bind keeps_get fun w => ?_
  split
  · exact keeps_pure _
  · exact keeps_bind (keeps_place _) fun _ => keeps_pure _

theorem keeps_makeAssociation (factory : Value) (traits strategy overrides : Option Value) :
    Keeps F (makeAssociation factory traits strategy overrides) := by
  have hname : ∀ e : Value × Value, Keeps F
      (do return (← attributeName e.1, e.2) : Action (String × Value)) := fun e =>
    keeps_bind (keeps_nameOr _ e.1) fun name => keeps_pure _
  -- Names are read one after another; nothing but the dictionary of overrides is made.
  have hrest : ∀ (factory : Option String) (traits : List Value) (entries : List (Value × Value)),
      Keeps F (do
        let traits ← traits.mapM traitName
        let entries ← entries.mapM fun e => return (← attributeName e.1, e.2)
        let strategy ← fixedStrategy strategy
        let overrides ← Parts.dict ((Table.ofList entries).entries.map fun e => (.text e.1, e.2))
        return (⟨factory, traits, overrides, strategy⟩ : Association)) :=
    fun _ _ _ => keeps_bind (keeps_mapM _ fun ref => keeps_nameOr _ ref) fun _ =>
      keeps_bind (keeps_mapM _ hname) fun _ =>
        keeps_bind (keeps_fixedStrategy strategy) fun _ =>
          keeps_bind (keeps_alloc _) fun _ => keeps_pure _
  unfold makeAssociation
  refine keeps_bind (keeps_elementsOf traits) fun traits =>
    keeps_bind (keeps_keywordsOf overrides) fun entries => ?_
  dsimp only
  split
  · exact keeps_bind keeps_wrongType fun _ => by
      split
      · exact keeps_bind (keeps_pure _) fun f => hrest f _ _
      · exact keeps_bind (keeps_map _ (keeps_nameOr _ _)) fun f => hrest f _ _
  · split
    · exact keeps_bind (keeps_pure _) fun f => hrest f _ _
    · exact keeps_bind (keeps_map _ (keeps_nameOr _ _)) fun f => hrest f _ _

theorem keeps_appendTo (list : Value) {make : Action Value} (h : Keeps F make) :
    Keeps F (appendTo list make) := by
  refine keeps_bind keeps_get fun w => ?_
  split
  · refine keeps_bind h fun v => keeps_bind keeps_get fun w => ?_
    split
    · exact keeps_setObject _ _
    · exact keeps_noAttribute
  · exact keeps_noAttribute

theorem keeps_addToCallbacks (table : Value) (c : Callback) :
    Keeps F (addToCallbacks table c) := by
  refine keeps_bind keeps_get fun w => ?_
  split
  · split
    · exact keeps_appendTo _ (keeps_pure _)
    · exact keeps_bind (keeps_alloc _) fun list =>
        keeps_modify fun w => Frame.Lenient.heap w _ (by simp [Heap.size, Heap.set])
  · exact keeps_noAttribute

end Action

end TraitFactory
