import TraitFactory.Number.Double

/-!
# JSON

Values of the JSON data format. Besides finite numbers there are not-a-number and the two
infinities. The entries of an object keep their order.
-/

namespace TraitFactory

inductive Json where
  | null
  | bool (b : Bool)
  | int (n : Int)
  | float (x : Double)
  | text (s : String)
  | list (items : List Json)
  | object (entries : List (String × Json))
  deriving Repr

namespace Json

instance : Inhabited Json := ⟨.null⟩

/-- An object's entry. -/
def get? (j : Json) (key : String) : Option Json :=
  match j with
  | .object entries => entries.lookup key
  | _ => none

def asText? : Json → Option String
  | .text s => some s
  | _ => none

def asInt? : Json → Option Int
  | .int n => some n
  | _ => none

def asBool? : Json → Option Bool
  | .bool b => some b
  | _ => none

def asList? : Json → Option (List Json)
  | .list items => some items
  | _ => none

end Json

end TraitFactory
