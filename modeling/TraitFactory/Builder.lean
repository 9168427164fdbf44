import TraitFactory.Declaring
import TraitFactory.Registry.Basic

/-!
# Builders

Declarations through builders: each one changes the builder's definition and then raises the
generation of the builder's registry. Definitions can also be changed directly, which raises no
generation.
-/

namespace TraitFactory

namespace Action

/-- The definition that a builder declares on. -/
def declaredOn : Value → Action DefinitionId
  | .builder b => do requireDefinition (← getBuilder b).definition
  | _ => noAttribute

/-- The registry that a value is; anything else has none of a registry's parts. -/
def requireRegistry : Value → Action RegistryId
  | .registry r => return r
  | _ => noAttribute

/-- Raises the generation of a builder's registry. -/
def touchFor : Value → Action Unit
  | .builder b => do touch (← requireRegistry (← getBuilder b).registry)
  | _ => noAttribute

/-- A builder that declares on a factory. -/
def factoryBuilder : Value → Action Builder
  | .builder b => do
    let builder ← getBuilder b
    if builder.forFactory then return builder else noAttribute
  | _ => noAttribute

/-- The definition a value is, by itself or as a builder's. -/
def definitionOf : Value → Action DefinitionId
  | .definition d => return d
  | .builder b => do requireDefinition (← getBuilder b).definition
  | _ => noAttribute

/-! ## Changing a definition -/

def addDeclaration (d : DefinitionId) (declaration : Declaration) : Action Unit :=
  Parts.modifyDefinition d fun definition =>
    { definition with attributes := definition.attributes.modify (·.declare declaration) }

/-- **Declares an attribute** on a definition, or in the set that stands in the place of its
own. -/
def declareMade (d : DefinitionId) (name : Value) (value : AttributeValue)
    (object : ObjectId) : Action Unit := do
  let definition ← getDefinition d
  let made : Action Declaration := do
    newDeclaration (← attributeName name) value object definition.label
  match definition.attributes with
  | .own _ => addDeclaration d (← made)
  | .given (.object o) => do
    let s ← attributeSetAt o
    let declaration ← made
    modify fun w => w.setObject o (.attributes (s.declare declaration))
  | .given _ => noAttribute

def declare (d : DefinitionId) (name value : Value) : Action Unit := do
  let (value, object) ← attributeValue value false
  declareMade d name value object

/-- Declares an attribute value that has just been made. -/
def declareNew (d : DefinitionId) (name : Value) (value : AttributeValue) : Action Unit := do
  declareMade d name value (← place (.attr value))

/-- Adds a value to the list that stands in the place of another part. -/
def appendTo (list : Value) (make : Action Value) : Action Unit := do
  match list, (← get).heap.object? list with
  | .object o, some (.list _) => do
    let v ← make
    match (← get).heap.get? o with
    | some (.list items) => modify fun w => w.setObject o (.list (items ++ [v]))
    | _ => noAttribute
  | _, _ => noAttribute

def applyTrait (d : DefinitionId) (ref : Value) : Action Unit := do
  match (← getDefinition d).appliedTraits with
  | .own _ => do
    let name ← traitName ref
    Parts.modifyDefinition d fun definition =>
      { definition with appliedTraits := definition.appliedTraits.modify (· ++ [name]) }
  | .given v => appendTo v do return .text (← traitName ref)

/-- The event that a value names: an event's text, or a symbol that is that text. -/
def eventOf (v : Value) : Action Event := do
  match v.asText?.bind Event.find? with
  | some e => return e
  | none => fail (.notAnEvent (← quoted v))

/-- Adds a callback to a table that stands in the place of a definition's own. -/
def addToCallbacks (table : Value) (c : Callback) : Action Unit := do
  let key := Value.keyword (.event c.event)
  let w ← get
  match table, w.heap.object? table with
  | .object o, some (.dict entries) =>
    match w.entryValue? entries key with
    | some list => appendTo list (return .object c.object)
    | none => do
      let list ← Parts.list [.object c.object]
      modify fun w => w.setObject o (.dict (w.insertEntry key list entries))
  | _, _ => noAttribute

/-- **Adds a callback** to a definition. -/
def addCallback (d : DefinitionId) (event fn : Value) : Action Callback := do
  let e ← eventOf event
  if !fn.isCallable then fail .invalidDeclaration
  let definition ← getDefinition d
  let c ← newCallback e fn definition.label
  match definition.callbacks with
  | .own _ =>
    Parts.modifyDefinition d fun definition =>
      { definition with callbacks := definition.callbacks.modify (· ++ [c]) }
  | .given table => addToCallbacks table c
  return c

/-! ## Declaring through a builder -/

/-- Declares an attribute by a value or by a function, of which exactly one must be given. -/
def setAttribute (on name : Value) (value : Option Value) (computed : Value) : Action Value := do
  let d ← declaredOn on
  if value.isNone = computed.hook?.isNone then
    fail (.valueOrComputed (← plainText name))
  match value with
  | some v => declare d name v
  | none => declareNew d name (← makeComputed computed)
  touchFor on
  return on

def associate (on name factory : Value) (traits strategy overrides : Option Value) :
    Action Value := do
  let d ← declaredOn on
  declareNew d name (.association (← makeAssociation factory traits strategy overrides))
  touchFor on
  return on

/-- Applies traits one after another: those before a bad reference stay applied. -/
def apply (on traits : Value) : Action Value := do
  let _ ← declaredOn on
  for ref in ← elements traits do
    applyTrait (← declaredOn on) ref
  touchFor on
  return on

/-- Sets the constructor, or unsets it when given nothing. -/
def initializeWith (on fn : Value) : Action Value := do
  let d ← declaredOn on
  Parts.modifyDefinition d fun definition => { definition with constructor := fn.hook? }
  touchFor on
  return fn

/-- Sets the persistor, or unsets it when given nothing. -/
def toCreate (on fn : Value) : Action Value := do
  let d ← declaredOn on
  Parts.modifyDefinition d fun definition => { definition with persistor := fn.hook? }
  touchFor on
  return fn

def callback (on event fn : Value) : Action Value := do
  let _ ← addCallback (← declaredOn on) event fn
  touchFor on
  return fn

/-- Builders have one method for each event, of the event's name. -/
def callbackMethod (on event fn : Value) : Action Value := do
  let _ ← declaredOn on
  match event.asText?.bind Event.find? with
  | some _ => callback on event fn
  | none => noAttribute

/-! ## Making definitions -/

/-- A parent is a factory's definition or names one. -/
def parentOf (r : RegistryId) (parent : Value) : Action Value := do
  match parent with
  | .null => return .null
  | .definition d =>
    if (← getDefinition d).isFactory then return parent else findFactoryValue r parent
  | ref => findFactoryValue r ref

/-- **Registers a factory.** Nothing is registered when its parent, its name or a trait it
applies is no reference, or when its name is taken. -/
def defineFactory (r : RegistryId) (name model parent : Value) (traits : Option Value) :
    Action Value := do
  let parent ← parentOf r parent
  let name ← factoryName name
  let applied ← (← elementsOf traits).mapM traitName
  let template : Template := { parent := parent, model := model }
  let d ← newDefinition { name := name, appliedTraits := .own applied, template := some template }
  registerFactory r d
  newBuilder ⟨.definition d, .registry r, true⟩

def defineTrait (r : RegistryId) (name : Value) : Action Value := do
  let name ← traitName name
  let d ← newDefinition { name := name }
  registerTrait r .null (.text name) d
  newBuilder ⟨.definition d, .registry r, false⟩

/-- Declares a trait visible to a factory and its descendants. -/
def localTrait (on name : Value) : Action Value := do
  let builder ← factoryBuilder on
  let name ← traitName name
  let d ← newDefinition { name := name }
  let r ← requireRegistry builder.registry
  registerTrait r builder.definition (.text name) d
  newBuilder ⟨.definition d, .registry r, false⟩

def childFactory (on name model : Value) (traits : Option Value) : Action Value := do
  let builder ← factoryBuilder on
  defineFactory (← requireRegistry builder.registry) name model builder.definition traits

/-- A trait that no registry knows yet. Its name may be anything. -/
def newTrait (name : Value) : Action Value := do
  let (name, given) ← givenName name
  return .definition (← newDefinition { name := name, given := given })

/-- A factory that no registry knows yet. Its name may be anything. -/
def newFactory (name parent model : Value) : Action Value := do
  let (name, given) ← givenName name
  let parent ← match parent with
    | .null => pure .null
    | v => .definition <$> definitionOf v
  let template : Template := { parent := parent, model := model }
  return .definition (← newDefinition { name := name, given := given, template := some template })

end Action

end TraitFactory
