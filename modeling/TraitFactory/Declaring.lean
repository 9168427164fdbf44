import TraitFactory.Association
import TraitFactory.Object.Items

/-!
# Declaring in attribute sets

Any value that stands for a name declares, and any value that can be a key may be looked up.
-/

namespace TraitFactory

/-- The text of a set: the names it declares. -/
def AttributeSet.text (s : AttributeSet) : String :=
  "AttributeSet(" ++ View.bracketed "[" "]" (s.names.map Text.quoted) ++ ")"

namespace Action

/-- The text of an origin, which must be one. -/
def originOf (v : Value) : Action String := do ofCause ((← get).takenText v)

/-- A declaration of a value under a name. -/
def declarationOf (name value origin : Value) : Action Declaration := do
  let name ← attributeName name
  let (value, object) ← attributeValue value false
  newDeclaration name value object (← originOf origin)

/-- The set that an object is. -/
def attributeSetAt (o : ObjectId) : Action AttributeSet := do
  match (← get).heap.get? o with
  | some (.attributes s) => return s
  | _ => noAttribute

/-- **Declares a value under a name** in the set that an object is. -/
def declareIn (o : ObjectId) (name value origin : Value) : Action Declaration := do
  let d ← declarationOf name value origin
  let s ← attributeSetAt o
  modify fun w => w.setObject o (.attributes (s.declare d))
  return d

/-- The declaration under a key. A key that is not a text has none. -/
def declaredUnder (s : AttributeSet) (key : Value) : Action (Option Declaration) := do
  requireKey key
  return key.asText?.bind s.get?

/-- The declaration that an element must be. -/
def asDeclaration (v : Value) : Action Declaration := do
  match (← get).heap.object? v with
  | some (.declaration d) => return d
  | _ => noAttribute

/-- **Another set**, which is the one that an object is, on top of other declarations. -/
def mergeOver (o : ObjectId) (others : Value) : Action Value := do
  let below ← (← elements others).mapM asDeclaration
  let s ← attributeSetAt o
  alloc (.attributes (s.mergeOver below))

end Action

end TraitFactory
