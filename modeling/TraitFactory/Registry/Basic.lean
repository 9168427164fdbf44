import TraitFactory.Object.Elements
import TraitFactory.Object.Equality

/-!
# Registries

Names of factories and traits and the definitions they stand for. A trait is looked up from a
factory through the local tables of its levels, nearest first, and then in the global table.
Every change of a registry raises its generation.
-/

namespace TraitFactory

namespace World

/-- What a table of definitions has under a name. A table that stands in the place of the owner's
own may hold anything. -/
def definedUnder? (w : World) (t : Slot (Table DefinitionId)) (name : String) :
    Except Failure (Option Value) :=
  match t with
  | .own t => .ok ((t.get? name).map .definition)
  | .given v =>
    match w.entries? v with
    | some entries => .ok (w.entryValue? entries (.text name))
    | none => .error (Failure.raise (.wrongType none))

/-- Looks into the local tables of levels, one after another. A level that is no factory has no
such table. -/
def findLocal? (w : World) (name : String) : List DefinitionId → Except Failure (Option Value)
  | [] => .ok none
  | level :: older =>
    match w.definitions.template? level with
    | none => .error (Failure.raise (.noAttribute none))
    | some t => do
      match ← w.definedUnder? t.traits name with
      | some d => return some d
      | none => findLocal? w name older

/-- **Trait lookup** from a factory, or in the global table alone. A lineage that comes upon
something else than a factory is of no use. -/
def findTrait? (w : World) (global : Slot (Table DefinitionId)) (scope : Option DefinitionId)
    (name : String) : Except Failure (Option Value) := do
  match scope with
  | none => w.definedUnder? global name
  | some factory =>
    let lineage := w.definitions.lineage factory
    match ← w.findLocal? name lineage.levels with
    | some d => return some d
    | none =>
      if lineage.closed then w.definedUnder? global name
      else .error (Failure.raise (.noAttribute none))

end World

namespace Registry

def touch (r : Registry) : Registry := { r with generation := r.generation + 1 }

def logger : String := "fixtura.core.registry"

end Registry

namespace Action

def liftExcept {α : Type} : Except Failure α → Action α
  | .ok x => return x
  | .error e => throw e

def modifyRegistry (r : RegistryId) (f : Registry → Registry) : Action Unit :=
  modify fun w => w.modifyRegistry r f

def touch (r : RegistryId) : Action Unit := modifyRegistry r Registry.touch

/-- What a table of definitions has under a name. -/
def definedUnder? (t : Slot (Table DefinitionId)) (name : String) : Action (Option Value) := do
  liftExcept ((← get).definedUnder? t name)

/-- Adds a definition to a table that stands in the place of its owner's own. -/
def addToGiven (table name : Value) (d : DefinitionId) : Action Unit := do
  let w ← get
  match table, w.heap.object? table with
  | .object o, some (.dict entries) =>
    if !w.isKey name then wrongType
    set (w.setObject o (.dict (w.insertEntry name (.definition d) entries)))
  | _, _ => wrongType

/-- Adds a definition to a table under a name, and gives the table as it is then. -/
def addToTable (t : Slot (Table DefinitionId)) (name : String) (d : DefinitionId) :
    Action (Slot (Table DefinitionId)) := do
  match t with
  | .own t => return .own (t.insert name d)
  | .given v =>
    addToGiven v (.text name) d
    return .given v

/-- Forgets what a table holds. -/
def clearTable (t : Slot (Table DefinitionId)) : Action (Slot (Table DefinitionId)) := do
  match t with
  | .own _ => return .own ∅
  | .given v =>
    let w ← get
    match v, w.heap.object? v with
    | .object o, some (.dict _) => set (w.setObject o (.dict []))
    | _, _ => noAttribute
    return .given v

/-! ## Looking up -/

def findFactoryValue (r : RegistryId) (ref : Value) : Action Value := do
  let name ← factoryName ref
  match ← definedUnder? (← getRegistry r).factories name with
  | some v => return v
  | none => fail (.factoryNotFound name)

/-- The definition that a value is; anything else has none of a definition's parts. -/
def requireDefinition : Value → Action DefinitionId
  | .definition d => return d
  | _ => noAttribute

def findFactory (r : RegistryId) (ref : Value) : Action DefinitionId := do
  requireDefinition (← findFactoryValue r ref)

/-- The factory that a scope means: a factory itself or one by its name. `none` is the global
scope, which nothing means and the name `global` means too. -/
def scopeFactory (r : RegistryId) (scope : Value) : Action (Option DefinitionId) := do
  if scope = .null || scope.asText? = some "global" then return none
  match scope with
  | .definition d =>
    if (← getDefinition d).isFactory then return some d else some <$> findFactory r scope
  | ref => some <$> findFactory r ref

def resolveTraitValue (r : RegistryId) (scope ref : Value) : Action Value := do
  let name ← traitName ref
  let factory ← scopeFactory r scope
  let w ← get
  match ← liftExcept (w.findTrait? (← getRegistry r).traits factory name) with
  | some d => return d
  | none =>
    let searched := (factory.bind w.definitions.get?).map (·.name)
    throw (Failure.traitNotFound name searched none)

/-! ## Registering -/

/-- Registers a factory whose name is no text, which only a table in the place of the registry's
own takes. -/
def registerUnnamed (r : RegistryId) (d : DefinitionId) (name : Value) : Action Unit := do
  if !(← get).isKey name then wrongType
  let table ← Parts.handedOut (← getRegistry r).factories Parts.definitionTable fun s =>
    modifyRegistry r fun reg => { reg with factories := s }
  let w ← get
  match w.entries? table with
  | some entries =>
    if (w.entryValue? entries name).isSome then
      fail (.duplicateFactory (← getDefinition d).name)
    addToGiven table name d
    touch r
  | none => wrongType

def registerFactory (r : RegistryId) (d : DefinitionId) : Action Unit := do
  let definition ← getDefinition d
  match definition.nameValue.asText? with
  | none => registerUnnamed r d definition.nameValue
  | some name =>
    let factories := (← getRegistry r).factories
    if (← definedUnder? factories name).isSome then fail (.duplicateFactory name)
    let factories ← addToTable factories name d
    modifyRegistry r fun reg => { reg with factories := factories }
    touch r

/-- Adds a trait to the global table. -/
def registerGlobalTrait (r : RegistryId) (name : String) (d : DefinitionId) : Action Unit := do
  let traits := (← getRegistry r).traits
  if (← definedUnder? traits name).isSome then fail (.duplicateTrait name none)
  let traits ← addToTable traits name d
  modifyRegistry r fun reg => { reg with traits := traits }
  touch r

/-- Adds a trait to the local table of a factory. -/
def registerLocalTrait (r : RegistryId) (f : DefinitionId) (name : String) (d : DefinitionId) :
    Action Unit := do
  let factory ← getDefinition f
  match factory.template with
  | none => noAttribute
  | some t =>
    if (← definedUnder? t.traits name).isSome then
      fail (.duplicateTrait name (some factory.name))
    let traits ← addToTable t.traits name d
    Parts.modifyDefinition f fun factory =>
      factory.modifyTemplate fun t => { t with traits := traits }
    touch r

/-- Adds a trait to the table of its scope. -/
def registerTrait (r : RegistryId) (scope name : Value) (d : DefinitionId) : Action Unit := do
  let name ← traitName name
  match ← scopeFactory r scope with
  | none => registerGlobalTrait r name d
  | some f => registerLocalTrait r f name d

/-- Forgets every definition; the cache and the generation's count stay. -/
def resetRegistry (r : RegistryId) : Action Unit := do
  let registry ← getRegistry r
  let factories ← clearTable registry.factories
  modifyRegistry r fun reg => { reg with factories := factories }
  let traits ← clearTable registry.traits
  modifyRegistry r fun reg => { reg with traits := traits }
  touch r
  log .info Registry.logger "Registry reset"

end Action

end TraitFactory
