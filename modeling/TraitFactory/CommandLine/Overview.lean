import TraitFactory.Compile
import TraitFactory.Object.Fields

/-!
# Overviews

Tables that show which factories there are, and what a plan is made of.
-/

namespace TraitFactory

/-- A table with a title. -/
structure Sheet where
  title : String
  columns : List String
  rows : List (List String)
  deriving DecidableEq, Repr

/-- What a command shows: a table, or a line of text with marks for its style. -/
inductive Display where
  | sheet (s : Sheet)
  | line (text : String)
  deriving DecidableEq, Repr

def listed (names : List String) : String := ", ".intercalate names

namespace World

/-- The name that a callable has of its own; one with bound leading arguments has none. -/
def ownName (w : World) (fn : Value) : String :=
  if w.typeName fn = "partial" then "fn" else w.callableName fn

/-- **How an attribute gets its value**, in a few words. -/
def summary (w : World) : AttributeValue → Except Cause String
  | .fixed value _ => w.written value View.quoted
  | .computed fn => .ok ("computed " ++ w.ownName fn)
  | .association a =>
    let target := match a.factory with
      | some name => if name.isEmpty then "(same name)" else name
      | none => "(same name)"
    let traits := if a.traits.isEmpty then "" else " [" ++ listed a.traits ++ "]"
    .ok ("association " ++ target ++ traits)

/-- What a value has under a name. -/
def fieldOf (w : World) (v : Value) (name : String) : Except Cause Value :=
  ((Action.getAttr default v name).execute w).1.mapError (·.cause)

/-- What stands in a cell for a value: a text itself, and nothing for nothing. -/
def cell (w : World) (v : Value) : Except Cause String :=
  match v.asText?, v with
  | some s, _ => .ok s
  | none, .null => .ok ""
  | none, v =>
    let what := "unable to render " ++ w.typeName v
    let wanted := "; a string or other renderable object is required"
    .error (.other "NotRenderableError" (what ++ wanted))

/-- Names put into one text, which must be texts. -/
def joined (vs : List Value) : Except Cause String :=
  match vs.mapM (·.asText?) with
  | some names => .ok (listed names)
  | none => .error (.wrongType none)

/-- The name of a factory's parent, and an empty text where there is none. -/
def parentName (w : World) : Value → Except Cause Value
  | .definition p =>
    match w.definitions.get? p with
    | some parent => .ok parent.nameValue
    | none => .error (.noAttribute none)
  | v => if w.isTrue v then w.fieldOf v "name" else .ok (.text "")

/-- The name of a factory's model, and an empty text where it has none. -/
def modelName (w : World) : Option Value → Except Cause Value
  | some model => w.fieldOf model "__name__"
  | none => .ok (.text "")

/-- The keys of a table of definitions. -/
def tableKeys (w : World) : Slot (Table DefinitionId) → Except Cause (List Value)
  | .own t => .ok (t.keys.map .text)
  | .given v => (w.sequence v).mapError (·.cause)

/-- **The row of a factory**: what it is called, its parent, its model, and what it lists of traits.
What is no factory has none. -/
def factoryRow (w : World) (v : Value) : Except Cause (List String) := do
  let .definition f := v | throw (.noAttribute none)
  let some d := w.definitions.get? f | throw (.noAttribute none)
  let some template := d.template | throw (.noAttribute none)
  if w.definitions.losesModel f then throw (.noAttribute none)
  let parent ← w.parentName template.parent
  let model ← w.modelName (w.definitions.model? f)
  let traits ← joined (← (w.references d.appliedTraits).mapError (·.cause))
  let locals ← joined (← w.tableKeys template.traits)
  return (← [d.nameValue, parent, model].mapM w.cell) ++ [traits, locals]

/-- What a table of definitions holds. -/
def tableValues (w : World) : Slot (Table DefinitionId) → Except Cause (List Value)
  | .own t => .ok (t.values.map .definition)
  | .given v =>
    match w.entries? v with
    | some entries => .ok (entries.map (·.2))
    | none => .error (.noAttribute none)

/-- Whether a table of definitions counts as empty. -/
def holdsNothing (w : World) : Slot (Table DefinitionId) → Bool
  | .own t => t.isEmpty
  | .given v => !w.isTrue v

/-- **All factories of a registry**, a row for each. -/
def factoriesSheet (w : World) (r : Registry) : Except Cause Sheet := do
  let rows ← (← w.tableValues r.factories).mapM w.factoryRow
  return ⟨"Factories", ["Factory", "Parent", "Model", "Traits", "Local traits"], rows⟩

/-- **The global traits of a registry**, in a line if there are any. -/
def globalsLine (w : World) (r : Registry) : Except Cause (List Display) := do
  if w.holdsNothing r.traits then return []
  return [.line ("Global traits: " ++ (← joined (← w.tableKeys r.traits)))]

end World

/-- The hooks that a layer brings. -/
def Layer.hooks (l : Layer) : List String :=
  (if l.constructor.isSome then ["constructor"] else [])
    ++ (if l.persistor.isSome then ["persistor"] else []) ++ l.callbacks.map (·.event.name)

def Layer.row (l : Layer) (index : Nat) : List String :=
  [toString index, l.label, listed (l.attributes.map (·.name)), listed l.hooks]

/-- The layers of a plan, numbered from one. -/
def Plan.layersSheet (p : Plan) : Sheet where
  title := "Layers for '" ++ p.factory ++ "' (lowest precedence first)"
  columns := ["#", "Layer", "Attributes", "Hooks"]
  rows := p.layers.zipIdx.map fun l => l.1.row (l.2 + 1)

/-- The attributes that the layers of a plan flatten to. -/
def World.attributesSheet (w : World) (p : Plan) : Except Cause Sheet := do
  let rows ← p.attributes.mapM fun d => do return [d.name, ← w.summary d.value, d.origin]
  return ⟨"Attributes", ["Name", "Value", "From"], rows⟩

end TraitFactory
