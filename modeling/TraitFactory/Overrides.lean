import TraitFactory.Association

/-!
# Overrides

Puts the overrides and hooks of one call on top of a compiled plan. The plan itself stays as it
is; a call without any uses it unchanged.
-/

namespace TraitFactory

namespace Action

/-- One override as a declaration. A plain value is shared, so that the caller's own object
reaches the instance. -/
def overrideDeclaration (entry : Value × Value) : Action Declaration := do
  let name ← attributeName entry.1
  let (value, object) ← attributeValue entry.2 true
  newDeclaration name value object "overrides"

/-- **Overrides a plan.** Names that no layer declares are added. -/
def applyOverrides (p : PlanId) (entries : List (Value × Value))
    (constructor persistor : Option Value) : Action PlanId := do
  let constructor := constructor.bind Value.hook?
  let persistor := persistor.bind Value.hook?
  if entries.isEmpty && constructor.isNone && persistor.isNone then return p
  let declarations ← entries.mapM overrideDeclaration
  if constructor.all (·.isCallable) && persistor.all (·.isCallable) then
    let stored ← getStored p
    let layer ← place (.layer (stored.plan.overrideLayer declarations constructor persistor))
    newPlan
      { plan := stored.plan.withOverrides declarations constructor persistor
        layers := stored.layers ++ [layer] }
  else fail .invalidDeclaration

end Action

end TraitFactory
