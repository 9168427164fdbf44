import TraitFactory.Object.Elements

/-!
# Making attribute values

Checks what a declaration is given: a computed attribute needs something callable, and an
association names for its factory and traits and one of the four strategies.
-/

namespace TraitFactory

namespace Action

/-- The strategy an association is fixed to, if it is. -/
def fixedStrategy (v : Option Value) : Action (Option Strategy) := do
  match v with
  | none | some .null => return none
  | some v =>
    match Strategy.find? (← ofCause ((← get).takenText v)) with
    | some s => return some s
    | none => fail .invalidDeclaration

/-- **Makes an association.** The strategy cannot be overridden. Of several other mistakes the
first in this order counts: the factory, the traits, the strategy. -/
def makeAssociation (factory : Value) (traits strategy overrides : Option Value) :
    Action Association := do
  let traits ← elementsOf traits
  let entries ← keywordsOf overrides
  if entries.any fun e => e.1.asText? = some "strategy" then wrongType
  let factory ← if factory = .null then pure none else some <$> factoryName factory
  let traits ← traits.mapM traitName
  let entries ← entries.mapM fun e => return (← attributeName e.1, e.2)
  let strategy ← fixedStrategy strategy
  let overrides ← Parts.dict ((Table.ofList entries).entries.map fun e => (.text e.1, e.2))
  return ⟨factory, traits, overrides, strategy⟩

def makeComputed (fn : Value) : Action AttributeValue :=
  if fn.isCallable then return .computed fn else fail .invalidDeclaration

/-- An attribute value with the object that it is: an existing one is itself. A plain value is a
fixed one; it is shared where it is given for one call only. -/
def attributeValue (v : Value) (shared : Bool) : Action (AttributeValue × ObjectId) := do
  match v, (← get).heap.attribute? v with
  | .object o, some a => return (a, o)
  | _, _ => return (.fixed v shared, ← place (.attr (.fixed v shared)))

end Action

end TraitFactory
