import TraitFactory.Compile

/-!
# Reports

What a session tells about definitions, registries and plans: trees of named parts whose leaves
are texts, numbers and views of values.
-/

namespace TraitFactory

inductive Report where
  | null
  | bool (b : Bool)
  | int (n : Int)
  | text (s : String)
  | value (v : View)
  | list (items : List Report)
  | fields (parts : List (String × Report))
  deriving Repr

namespace Report

instance : Inhabited Report := ⟨.null⟩

def texts (ss : List String) : Report := .list (ss.map .text)

def optional (s : Option String) : Report := (s.map .text).getD .null

end Report

namespace World

/-- The overrides of an association, each with its name. -/
def reportOverrides : View → Report
  | .dict entries => .list (entries.map fun o => .list [.value o.1, .value o.2])
  | v => .value v

/-- How an attribute gets its value. -/
def reportValue : View → Report
  | .fixed value shared =>
    .fields [("kind", .text "fixed"), ("value", .value value), ("shared", .bool shared)]
  | .computed fn => .fields [("kind", .text "computed"), ("fn", .text fn)]
  | .association factory traits overrides strategy =>
    .fields [("kind", .text "association"), ("factory", .optional factory),
      ("traits", .texts traits), ("overrides", reportOverrides overrides),
      ("strategy", .optional (strategy.map (·.name)))]
  | v => .value v

def reportDeclaration (w : World) (d : Declaration) : Report :=
  .fields [("name", .text d.name), ("origin", .text d.origin),
    ("value", reportValue (w.attributeView d.value))]

def reportDeclarations (w : World) (ds : List Declaration) : Report :=
  .list (ds.map w.reportDeclaration)

def reportHook (w : World) (fn : Option Value) : Report := .optional (fn.map w.callableName)

/-- A callback: its event, its function and its owner. -/
def reportCallback (w : World) (c : Callback) : Report :=
  .texts [c.event.name, w.callableName c.fn, c.owner]

def reportCallbacks (w : World) (cs : List Callback) : Report :=
  .list (cs.map w.reportCallback)

/-- The label of the definition that a value is. -/
def labelOfValue (w : World) : Value → Except Failure Report
  | .definition d => .ok (.text (w.labelOf d))
  | _ => .error (Failure.raise (.noAttribute none))

/-- A table of definitions: each key with what is told of the definition under it. -/
def reportTable (w : World) (tell : Value → Except Failure Report) :
    Slot (Table DefinitionId) → Except Failure (List (Report × Report))
  | .own t => t.entries.mapM fun e => return (.text e.1, ← tell (.definition e.2))
  | .given v =>
    match w.entries? v with
    | some entries => entries.mapM fun e => return (.value (w.view e.1), ← tell e.2)
    | none => .error (Failure.raise (.noAttribute none))

/-- A table of traits: each key with the label of the trait under it. -/
def reportTraits (w : World) (t : Slot (Table DefinitionId)) : Except Failure Report := do
  return .list ((← w.reportTable w.labelOfValue t).map fun e => .list [e.1, e.2])

def reportModel (w : World) (m : Value) : Report := .optional (m.hook?.map w.callableName)

/-- The names of the levels of a factory, oldest first. -/
def reportLineage (w : World) (id : DefinitionId) : Report :=
  let levels := (w.definitions.levels id).reverse.filterMap w.definitions.get?
  .list (levels.map fun d => .value (w.view d.nameValue))

/-- What is told of a factory besides: its lineage, its model and its local traits. -/
def reportTemplate (w : World) (id : DefinitionId) (t : Template) :
    Except Failure (List (String × Report)) := do
  if !w.definitions.hasLineage id then .error (Failure.raise (.noAttribute none))
  return [("lineage", w.reportLineage id),
    ("model", w.reportModel ((w.definitions.model? id).getD .null)),
    ("traits", ← w.reportTraits t.traits)]

/-- **A definition**, and for a factory also its lineage, its model and its local traits. -/
def reportDefinition (w : World) (id : DefinitionId) : Except Failure Report := do
  match w.definitions.get? id with
  | none => return .null
  | some d =>
    let applied ← w.references d.appliedTraits
    let parts :=
      [("label", .text d.label), ("applied_traits", .list (applied.map fun v => .value (w.view v))),
        ("attributes", w.reportDeclarations (← w.declarationsOf d.attributes)),
        ("constructor", w.reportHook d.constructor), ("persistor", w.reportHook d.persistor),
        ("callbacks", w.reportCallbacks (← w.callbacksOf d.callbacks))]
    match d.template with
    | some t => return .fields (parts ++ (← w.reportTemplate id t))
    | none => return .fields parts

/-- **A registry**: its factories, its global traits and its generation. -/
def reportRegistry (w : World) (r : Registry) : Except Failure Report := do
  let tell : Value → Except Failure Report
    | .definition d => w.reportDefinition d
    | _ => .error (Failure.raise (.noAttribute none))
  let factories ← w.reportTable tell r.factories
  return .fields [("factories", .list (factories.map (·.2))),
    ("traits", ← w.reportTraits r.traits), ("generation", .int r.generation)]

def reportLayer (w : World) (l : Layer) : Report :=
  .fields [("label", .text l.label), ("kind", .text l.kind.name), ("name", .text l.name),
    ("scope", .optional l.scope),
    ("attributes", .list (l.attributes.map fun d => .texts [d.name, d.origin])),
    ("constructor", w.reportHook l.constructor), ("persistor", w.reportHook l.persistor),
    ("callbacks", w.reportCallbacks l.callbacks)]

/-- **A plan**: its layers, lowest precedence first, and what they flatten to. -/
def reportPlan (w : World) (p : Plan) : Report :=
  .fields [("factory", .text p.factory), ("model", w.reportModel p.model),
    ("traits", .texts p.traits), ("layers", .list (p.layers.map w.reportLayer)),
    ("attributes", w.reportDeclarations p.attributes), ("names", .texts p.names),
    ("constructor", w.reportHook p.constructor), ("persistor", w.reportHook p.persistor),
    ("callbacks", w.reportCallbacks p.callbacks)]

end World

end TraitFactory
