import TraitFactory.Strategy
import TraitFactory.Text.Quoted

/-!
# Keywords

The library's own enumerations: strategies, events and kinds of layers. As values their members
are texts that know which enumeration they belong to.
-/

namespace TraitFactory

/-- Where a layer comes from. -/
inductive LayerKind where
  | factory
  | trait
  | dynamicTrait
  | override
  deriving DecidableEq, Repr

namespace LayerKind

def name : LayerKind → String
  | .factory => "factory"
  | .trait => "trait"
  | .dynamicTrait => "dynamic_trait"
  | .override => "override"

def all : List LayerKind := [.factory, .trait, .dynamicTrait, .override]

def isTrait : LayerKind → Bool
  | .trait | .dynamicTrait => true
  | .factory | .override => false

end LayerKind

/-- **A member of an enumeration.** -/
inductive Keyword where
  | strategy (s : Strategy)
  | event (e : Event)
  | layer (k : LayerKind)
  deriving DecidableEq, Repr

namespace Keyword

/-- The text that a member is. -/
def text : Keyword → String
  | .strategy s => s.name
  | .event e => e.name
  | .layer k => k.name

/-- The name of the enumeration. -/
def family : Keyword → String
  | .strategy _ => "Strategy"
  | .event _ => "LifecycleEvent"
  | .layer _ => "LayerKind"

/-- The members of the enumeration that a member belongs to. -/
def siblings : Keyword → List Keyword
  | .strategy _ => Strategy.all.map .strategy
  | .event _ => Event.all.map .event
  | .layer _ => LayerKind.all.map .layer

/-- The name of a member is its text in capitals. -/
def name (k : Keyword) : String := k.text.toUpper

/-- A member as it is shown inside other values. -/
def shown (k : Keyword) : String :=
  "<" ++ k.family ++ "." ++ k.name ++ ": " ++ Text.quoted k.text ++ ">"

end Keyword

end TraitFactory
