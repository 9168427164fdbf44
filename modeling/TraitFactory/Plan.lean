import TraitFactory.Definition

/-!
# Layers and plans

A layer is what one definition, or one set of overrides, contributes. A plan is a stack of
layers, lowest precedence first, together with what the stack flattens to.
-/

namespace TraitFactory

/-- **One source of declarations** in a stack. The scope of a trait's layer is the factory from
which the trait was looked up. -/
structure Layer where
  kind : LayerKind
  name : String
  scope : Option String := none
  attributes : List Declaration := []
  constructor : Option Value := none
  persistor : Option Value := none
  callbacks : List Callback := []
  deriving DecidableEq, Repr

namespace Layer

/-- `kind:name`, with `@scope` for a trait looked up from a factory that has a name. -/
def label (l : Layer) : String :=
  let base := l.kind.name ++ ":" ++ l.name
  match l.scope with
  | some s => if l.kind.isTrait && !s.isEmpty then base ++ "@" ++ s else base
  | none => base

end Layer

/-- **Evaluation plan** of one factory with one list of call-time traits. -/
structure Plan where
  factory : String
  model : Value
  traits : List String
  layers : List Layer
  attributes : List Declaration
  constructor : Option Value
  persistor : Option Value
  callbacks : List Callback
  deriving DecidableEq, Repr

/-- Keeps the first occurrence of each callback. -/
def keepFirst : List ObjectId → List Callback → List Callback
  | _, [] => []
  | seen, c :: cs =>
    if c.object ∈ seen then keepFirst seen cs else c :: keepFirst (c.object :: seen) cs

/-- The last of the given choices that is made at all. -/
def lastChoice {α : Type} (choices : List (Option α)) : Option α :=
  choices.foldl (fun chosen c => c.or chosen) none

namespace Plan

/-- Attributes merge layer over layer. -/
def flatten (layers : List Layer) : AttributeSet :=
  layers.foldl (fun below l => (AttributeSet.ofList l.attributes).mergeOver below.declarations) ∅

/-- **Flattens a stack**: later layers win for attributes, constructor and persistor, and
callbacks add up, each kept once. -/
def assemble (factory : String) (model : Value) (traits : List String)
    (layers : List Layer) : Plan where
  factory := factory
  model := model
  traits := traits
  layers := layers
  attributes := (flatten layers).declarations
  constructor := lastChoice (layers.map (·.constructor))
  persistor := lastChoice (layers.map (·.persistor))
  callbacks := keepFirst [] (layers.flatMap (·.callbacks))

def declaration? (p : Plan) (name : String) : Option Declaration :=
  p.attributes.find? (·.name = name)

def names (p : Plan) : List String := p.attributes.map (·.name)

def callbacksFor (p : Plan) (e : Event) : List Callback := p.callbacks.filter (·.event = e)

/-- The layer of a call's own overrides and hooks. -/
def overrideLayer (p : Plan) (declarations : List Declaration)
    (constructor persistor : Option Value) : Layer where
  kind := .override
  name := "overrides"
  scope := some p.factory
  attributes := declarations
  constructor := constructor
  persistor := persistor

/-- **Puts a layer of overrides on top.** Names that no layer declares are added. -/
def withOverrides (p : Plan) (declarations : List Declaration)
    (constructor persistor : Option Value) : Plan :=
  { p with
    layers := p.layers ++ [p.overrideLayer declarations constructor persistor]
    attributes := ((AttributeSet.ofList declarations).mergeOver p.attributes).declarations
    constructor := constructor.or p.constructor
    persistor := persistor.or p.persistor }

end Plan

end TraitFactory
