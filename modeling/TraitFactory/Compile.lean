import TraitFactory.Registry.Basic

/-!
# Compilation

Compiles a factory and call-time traits into a plan. The stack of layers, lowest precedence
first, holds for each level of the factory, oldest first, the traits the level applies and then
the level itself, and after all levels the call-time traits. A trait's own traits stand before
it.

`World.compile` is the rule. `Action.compile` gives the same through a cache of plans and of the
layers that do not depend on call-time traits, and makes the layers the objects that they are.
-/

namespace TraitFactory

namespace Definitions

/-- Why a lineage that is not closed fails: it comes back to itself, or upon something that is no
factory. -/
def lineageFailure (ds : Definitions) (l : Lineage) : Failure :=
  Failure.raise (if ds.size < l.levels.length then .tooDeep else .noAttribute none)

/-- What stands above the levels of a factory: nothing at all. -/
def foundation (ds : Definitions) (l : Lineage) : Except Failure (List Layer) :=
  if l.closed then .ok [] else .error (ds.lineageFailure l)

/-- A trail that leads back to where it has been. Only names that are texts make a path. -/
def cycle (ds : Definitions) (scope : DefinitionId) (trail : List DefinitionId) : Failure :=
  if (trail.filterMap ds.get?).all fun d => d.nameValue.asText?.isSome then
    Failure.inFactory (.traitCycle (trail.map ds.nameOf)) (ds.nameOf scope)
  else Failure.raise (.wrongType none)

/-- A missing trait is told with the factory searched, and within other traits with the innermost
of them. A reference that is no name is searched for nowhere. -/
def missingTrait (ds : Definitions) (scope : DefinitionId) (trail : List DefinitionId)
    (isName : Bool) (name : String) : Failure :=
  match trail.getLast? with
  | some inside => Failure.traitNotFound name (some (ds.nameOf scope)) (some (ds.nameOf inside))
  | none => Failure.traitNotFound name (if isName then some (ds.nameOf scope) else none) none

end Definitions

namespace World

variable (w : World)

/-! ## Parts of a definition -/

/-- The elements of a sequence. -/
def sequence (v : Value) : Except Failure (List Value) :=
  match v, v.asText?, w.entries? v, w.heap.object? v with
  | _, some s, _, _ => .ok (characters s)
  | _, none, some entries, _ => .ok (entries.map (·.1))
  | _, none, none, some (.list items) | _, none, none, some (.tuple items)
  | _, none, none, some (.set items) => .ok items
  | .bytes bs, _, _, _ => .ok (bs.map fun b => .int b.toNat)
  | _, _, _, _ => .error (Failure.raise (.wrongType none))

/-- The traits that a definition applies, as references. -/
def references : Slot (List String) → Except Failure (List Value)
  | .own names => .ok (names.map .text)
  | .given v => w.sequence v

/-- The declarations of a definition. Only a set of attributes has any. -/
def declarationsOf : Slot AttributeSet → Except Failure (List Declaration)
  | .own s => .ok s.declarations
  | .given v =>
    match w.heap.object? v with
    | some (.attributes s) => .ok s.declarations
    | _ => .error (Failure.raise (.noAttribute none))

/-- A value that must be a callback. -/
def asCallback (v : Value) : Except Failure Callback :=
  match w.heap.object? v with
  | some (.callback c) => .ok c
  | _ => .error (Failure.raise .invalidDeclaration)

/-- What a table of callbacks has for one event. -/
def registered (entries : List (Value × Value)) (e : Event) : Except Failure (List Value) :=
  match w.entryValue? entries (.keyword (.event e)) with
  | some v => w.sequence v
  | none => .ok []

/-- The callbacks of a definition in the order of the events. -/
def callbacksOf : Slot (List Callback) → Except Failure (List Callback)
  | .own cs => .ok (groupCallbacks cs)
  | .given v =>
    match w.entries? v with
    | some entries => do
      let found ← Event.all.mapM (w.registered entries)
      found.flatten.mapM w.asCallback
    | none => .error (Failure.raise (.noAttribute none))

/-- The name of a definition, which has to be a text. -/
def writtenName (d : Definition) : Except Failure String :=
  (w.takenText d.nameValue).mapError Failure.raise

/-- The name of a factory as the scope of a layer, where it must be a text or nothing at all. -/
def scopeName (scope : DefinitionId) : Except Failure (Option String) :=
  match w.definitions.get? scope with
  | none => .ok none
  | some d => if d.given = some .null then .ok none else some <$> w.writtenName d

/-- **The layer of a definition**, whose name must be a text and whose constructor and persistor
must be callable. -/
def layerOf (d : Definition) (kind : LayerKind) (scope : Option String := none) :
    Except Failure Layer := do
  let attributes ← w.declarationsOf d.attributes
  let callbacks ← w.callbacksOf d.callbacks
  let name ← w.writtenName d
  if d.constructor.all (·.isCallable) && d.persistor.all (·.isCallable) then
    return { kind := kind, name := name, scope := scope, attributes := attributes,
             constructor := d.constructor, persistor := d.persistor, callbacks := callbacks }
  else .error (Failure.raise .invalidDeclaration)

/-! ## The stack -/

variable (global : Slot (Table DefinitionId))

/-- The trait that a reference means, from a factory. -/
def traitAt (scope : DefinitionId) (trail : List DefinitionId) (ref : Value) :
    Except Failure DefinitionId := do
  match ref.name? with
  | none => .error (w.definitions.missingTrait scope trail false (w.quoted ref))
  | some name =>
    match ← w.findTrait? global (some scope) name with
    | none => .error (w.definitions.missingTrait scope trail true name)
    | some (.definition t) => return t
    | some _ => .error (Failure.raise (.noAttribute none))

/-- **Expands one reference**, nested traits first. The trail holds the traits being expanded,
the outermost first: a trait on its own trail is a cycle. `depth` bounds the trail. -/
def expand (scope : DefinitionId) (kind : LayerKind) :
    Nat → List DefinitionId → Value → Except Failure (List Layer)
  | depth, trail, ref => do
    let t ← w.traitAt global scope trail ref
    if t ∈ trail then .error (w.definitions.cycle scope (trail ++ [t]))
    else
      match depth, w.definitions.get? t with
      | depth + 1, some trait =>
        let nested ← (← w.references trait.appliedTraits).mapM
          (expand scope kind depth (trail ++ [t]))
        let layer ← w.layerOf trait kind (← w.scopeName scope)
        return nested.flatten ++ [layer]
      | _, _ => .error (Failure.raise .tooDeep)

/-- No trail is longer than there are definitions. -/
def expansionDepth : Nat := w.definitions.size + 1

def expandAll (scope : DefinitionId) (kind : LayerKind) (refs : List Value) :
    Except Failure (List Layer) := do
  let layers ← refs.mapM (w.expand global scope kind w.expansionDepth [])
  return layers.flatten

/-- What one level contributes of its own: the traits it applies, then its declarations. A level
that is no factory has no place among levels. -/
def levelLayers (level : DefinitionId) : Except Failure (List Layer) := do
  match w.definitions.get? level with
  | none => .error (Failure.raise (.wrongType none))
  | some d =>
    if !d.isFactory then .error (Failure.raise (.noAttribute none))
    let traits ← w.expandAll global level .trait (← w.references d.appliedTraits)
    return traits ++ [← w.layerOf d .factory]

/-- The layers of some levels, given nearest first, on what stands above them all: those of the
oldest come first. -/
def staticLayers (above : Except Failure (List Layer)) :
    List DefinitionId → Except Failure (List Layer)
  | [] => above
  | level :: older => do
    let inherited ← staticLayers above older
    return inherited ++ (← w.levelLayers global level)

/-- The plan that a factory's static layers and its call-time traits make. -/
def planOn (factory : DefinitionId) (traits : List String) (inherited : List Layer) :
    Except Failure Plan := do
  let ds := w.definitions
  let dynamic ← w.expandAll global factory .dynamicTrait (traits.map .text)
  if ds.losesModel factory then .error (Failure.raise (.noAttribute none))
  let name ← match ds.get? factory with
    | some d => w.writtenName d
    | none => .ok ""
  return Plan.assemble name ((ds.model? factory).getD .null) traits (inherited ++ dynamic)

/-- **Compilation without a cache.** -/
def compile (factory : DefinitionId) (traits : List String) : Except Failure Plan := do
  let lineage := w.definitions.lineage factory
  let above := w.definitions.foundation lineage
  w.planOn global factory traits (← w.staticLayers global above lineage.levels)

end World

/-! ## The cache -/

namespace PlanCache

/-- Plans of an older generation are dropped before the cache is looked into. -/
def refresh (c : PlanCache) (generation : Int) : PlanCache :=
  if c.enabled && c.generation ≠ generation then
    { c with plans := [], shared := ∅, placed := ∅, generation := generation }
  else c

def plan? (c : PlanCache) (key : PlanKey) : Option PlanId :=
  if c.enabled then c.plans.lookup key else none

def shared? (c : PlanCache) (name : String) : Option (List Layer) :=
  if c.enabled then c.shared.get? name else none

def insertPlan (c : PlanCache) (key : PlanKey) (p : PlanId) : PlanCache :=
  if c.enabled then { c with plans := c.plans ++ [(key, p)] } else c

/-- Stores layers under a name unless the name is taken; what the name then stands for counts. -/
def keepShared (c : PlanCache) (name : String) (layers : List Layer) :
    List Layer × PlanCache :=
  if c.enabled then
    match c.shared.get? name with
    | some kept => (kept, c)
    | none => (layers, { c with shared := c.shared.insert name layers })
  else (layers, c)

def keepPlaced (c : PlanCache) (name : String) (objects : List ObjectId) : PlanCache :=
  { c with placed := c.placed.insert name objects }

def clear (c : PlanCache) : PlanCache := { c with plans := [], shared := ∅, placed := ∅ }

end PlanCache

namespace World

variable (w : World)

/-- **Static layers through the cache**, where each level is stored under its factory's name.
What older levels stored stays when a nearer level fails. -/
def cachedStaticLayers (global : Slot (Table DefinitionId)) (above : Except Failure (List Layer)) :
    List DefinitionId → PlanCache → Except Failure (List Layer) × PlanCache
  | [], c => (above, c)
  | level :: older, c =>
    match c.shared? (w.definitions.nameOf level) with
    | some layers => (.ok layers, c)
    | none =>
      match cachedStaticLayers global above older c with
      | (.error e, c) => (.error e, c)
      | (.ok inherited, c) =>
        match w.levelLayers global level with
        | .error e => (.error e, c)
        | .ok own =>
          let (layers, c) := c.keepShared (w.definitions.nameOf level) (inherited ++ own)
          (.ok layers, c)

/-! ## Dictionaries of a cache that were handed out -/

def texts? (vs : List Value) : Option (List String) := vs.mapM (·.asText?)

/-- The key of a plan that a value is: a name and a tuple of names. -/
def planKey? (key : Value) : Option PlanKey := do
  match ← w.tuple? key with
  | [name, traits] => return (← name.asText?, ← texts? (← w.tuple? traits))
  | _ => none

/-- The plans that a dictionary holds. -/
def plansIn (entries : List (Value × Value)) : List (PlanKey × PlanId) :=
  entries.filterMap fun e =>
    match w.planKey? e.1, e.2 with
    | some key, .plan p => some (key, p)
    | _, _ => none

/-- A layer and the object that it is. -/
def placedLayer? (v : Value) : Option (ObjectId × Layer) :=
  match v, w.heap.object? v with
  | .object o, some (.layer l) => some (o, l)
  | _, _ => none

/-- The layers that a dictionary holds under names of factories. -/
def layersIn (entries : List (Value × Value)) : List (String × List (ObjectId × Layer)) :=
  entries.filterMap fun e => do
    return (← e.1.asText?, ← (← w.tuple? e.2).mapM w.placedLayer?)

/-- The entries of a dictionary that was handed out. -/
def handedEntries? (handed : Option ObjectId) : Option (List (Value × Value)) :=
  handed.bind fun o => w.entries? (.object o)

/-- A cache as the dictionaries that it handed out have become. -/
def recalled (c : PlanCache) : PlanCache :=
  let c := match w.handedEntries? c.handedPlans with
    | some entries => { c with plans := w.plansIn entries }
    | none => c
  match w.handedEntries? c.handedLayers with
  | some entries =>
    let layers : Table (List (ObjectId × Layer)) := ⟨w.layersIn entries⟩
    { c with shared := layers.map (·.map (·.2)), placed := layers.map (·.map (·.1)) }
  | none => c

end World

namespace Action

def resolverLogger : String := "fixtura.core.resolver"

/-- Trait names as the log shows them. -/
def traitsText (traits : List String) : String := View.tupleText (traits.map Text.quoted)

/-- Makes a dictionary that was handed out what it stands for, unless it is that already. -/
def renewHanded {α : Type} [DecidableEq α] (handed : Option ObjectId)
    (shown : World → List (Value × Value) → α) (is : α) (entries : Action (List (Value × Value))) :
    Action Unit := do
  let w ← get
  match handed, w.handedEntries? handed with
  | some o, some old =>
    if shown w old ≠ is then
      let entries ← entries
      modify fun w => w.setObject o (.dict entries)
  | _, _ => return

/-- Changes the cache of a registry together with the dictionaries that it has handed out. -/
def updateCache (r : RegistryId) (f : PlanCache → PlanCache) : Action Unit := do
  let before ← getRegistry r
  let c := f ((← get).recalled before.cache)
  Parts.modifyCache r fun _ => c
  renewHanded c.handedPlans World.plansIn c.plans (Parts.planEntries c)
  renewHanded c.handedLayers (fun w es => (w.layersIn es).map fun e => (e.1, e.2.map (·.1)))
    c.placed.entries (Parts.layerEntries c)

/-- **The objects that the static layers are**, level by level: those kept for a level, or those
of the older levels and new ones for what the level adds to them. -/
def placeStatic (ds : Definitions) :
    List DefinitionId → PlanCache → Action (List ObjectId × PlanCache)
  | [], c => return ([], c)
  | level :: older, c => do
    let name := ds.nameOf level
    match c.placed.get? name with
    | some objects => return (objects, c)
    | none =>
      let (above, c) ← placeStatic ds older c
      match c.placed.get? name, c.shared.get? name with
      | some objects, _ => return (objects, c)
      | none, some layers =>
        let added ← (layers.drop above.length).mapM fun l => place (.layer l)
        return (above ++ added, c.keepPlaced name (above ++ added))
      | none, none => return (above, c)

/-- A name under which nothing can be kept is of no use to a cache. -/
def requireCacheKey (c : PlanCache) (d : DefinitionId) : Action Unit := do
  let name := (← getDefinition d).nameValue
  if c.enabled && !(← get).isKey name then wrongType

/-- The registry in which the resolver of a registry looks definitions up. -/
def sourceOf (r : RegistryId) : Action RegistryId := do
  match (← getRegistry r).cache.registry with
  | none => return r
  | some (.registry source) => return source
  | some _ => noAttribute

/-- The resolver that compiles for a registry, by the registry that it was made for. -/
def resolverOf (r : RegistryId) : Action RegistryId := do
  match (← getRegistry r).resolver with
  | none => return r
  | some (.resolver other) => return other
  | some _ => noAttribute

/-- Compiles what is not in the cache. -/
def compileAnew (r : RegistryId) (global : Slot (Table DefinitionId)) (f : DefinitionId)
    (dynamic : List String) : Action StoredPlan := do
  let w ← get
  let ds := w.definitions
  let lineage := ds.lineage f
  let (inherited, cache) :=
    w.cachedStaticLayers global (ds.foundation lineage) lineage.levels (← getRegistry r).cache
  let (kept, cache) ← if cache.enabled then placeStatic ds lineage.levels cache
    else pure ([], cache)
  updateCache r fun _ => cache
  let plan ← liftExcept (inherited.bind (w.planOn global f dynamic))
  let added ← (plan.layers.drop kept.length).mapM fun l => place (.layer l)
  return ⟨plan, kept ++ added⟩

/-- **Compilation through the cache** of a resolver. -/
def compileBy (r : RegistryId) (factory : Value) (traits : Option Value) : Action PlanId := do
  let source ← sourceOf r
  let found ← findFactoryValue source factory
  let dynamic ← (← elementsOf traits).mapM traitName
  let f ← requireDefinition found
  let name := (← get).definitions.nameOf f
  let key : PlanKey := (name, dynamic)
  let registry ← getRegistry source
  updateCache r fun c => c.refresh registry.generation
  let cache := (← getRegistry r).cache
  requireCacheKey cache f
  match cache.plan? key with
  | some p =>
    debug resolverLogger s!"Plan cache hit for {name} with traits {traitsText dynamic}"
    return p
  | none =>
    let stored ← compileAnew r registry.traits f dynamic
    let plan := stored.plan
    let summary := s!"{plan.layers.length} layers, {plan.attributes.length} attributes"
    debug resolverLogger
      s!"Compiled plan for {name} with traits {traitsText dynamic}: {summary}"
    let p ← newPlan stored
    updateCache r fun c => c.insertPlan key p
    return p

/-- Forgets the plans of a resolver. -/
def invalidateCache (r : RegistryId) : Action Unit := updateCache r PlanCache.clear

/-- **Compiles a factory of a registry** with call-time traits. -/
def compile (r : RegistryId) (factory : Value) (traits : Option Value) : Action PlanId := do
  compileBy (← resolverOf r) factory traits

def invalidate (r : RegistryId) : Action Unit := do invalidateCache (← resolverOf r)

/-- Switches the cache on or off by anything that counts as true or not. -/
def setCache (r : RegistryId) (flag : Value) : Action Unit := do
  let enabled := (← get).isTrue flag
  Parts.modifyCache (← resolverOf r) fun c => { c with enabled := enabled, flag := flag }

end Action

end TraitFactory
