import TraitFactory.World.Unfold

/-!
# Names

A factory, trait or attribute is named by a text, or by a symbol that stands for a text. All
forms of one name are the same name; anything else fails the way an unknown name of its kind
fails.
-/

namespace TraitFactory

/-- **The name a value stands for**, if it stands for one. -/
def Value.name? : Value → Option String
  | .symbol _ payload => payload.asText?
  | v => v.asText?

@[simp] theorem Value.name?_text (s : String) : (Value.text s).name? = some s := rfl

@[simp] theorem Value.name?_textSymbol (n : Nat) (s : String) :
    (Value.textSymbol n s).name? = some s := rfl

@[simp] theorem Value.name?_symbol_text (n : Nat) (s : String) :
    (Value.symbol n (.text s)).name? = some s := rfl

namespace Action

def nameOr (cause : String → Cause) (ref : Value) : Action String := do
  match ref.name? with
  | some name => return name
  | none => fail (cause (← quoted ref))

def traitName : Value → Action String := nameOr .traitNotFound

def factoryName : Value → Action String := nameOr .factoryNotFound

def attributeName : Value → Action String := nameOr .notAnAttributeName

end Action

end TraitFactory
