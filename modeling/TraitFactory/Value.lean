import TraitFactory.Keyword
import TraitFactory.Model
import TraitFactory.Number.Double

/-!
# Values

What attributes hold and hooks compute with. Everything that can change or be shared is a
reference into one of the stores of a `World`, so two references to one list stay one list.
-/

namespace TraitFactory

/-- A container, an instance or another object with an identity of its own. -/
structure ObjectId where
  index : Nat
  deriving DecidableEq, Repr

structure FunctionId where
  index : Nat
  deriving DecidableEq, Repr

structure DefinitionId where
  index : Nat
  deriving DecidableEq, Repr

structure PlanId where
  index : Nat
  deriving DecidableEq, Repr

structure RegistryId where
  index : Nat
  deriving DecidableEq, Repr

structure RunnerId where
  index : Nat
  deriving DecidableEq, Repr

structure EvaluatorId where
  index : Nat
  deriving DecidableEq, Repr

structure SettingsId where
  index : Nat
  deriving DecidableEq, Repr

structure BuilderId where
  index : Nat
  deriving DecidableEq, Repr

structure EvaluationId where
  index : Nat
  deriving DecidableEq, Repr

/-- What of a table a view of it shows. -/
inductive TableAspect where
  | keys
  | values
  | items
  deriving DecidableEq, Repr

/-- **Values.** A symbol is a member of an enumeration; each has a serial number, since equal
looking symbols of different enumerations differ. A text symbol is a symbol that is also the
text it stands for. Floating-point numbers have serial numbers too, for `nan` differs from every
number and is found among others only as the one that it is. -/
inductive Value where
  | null
  | bool (b : Bool)
  | int (n : Int)
  | float (serial : Nat) (x : Double)
  | text (s : String)
  | bytes (bs : List UInt8)
  | symbol (serial : Nat) (payload : Value)
  | textSymbol (serial : Nat) (s : String)
  /-- A member of one of the library's own enumerations, which is a text as well. -/
  | keyword (k : Keyword)
  | model (m : Model)
  /-- A part of another value that shows nothing of itself but its type, such as what a model keeps
  under a name that only its instances have. -/
  | inner (type : String) (owner : Value) (name : String)
  /-- The type of a value that is no instance of a model. -/
  | type (name : String)
  /-- An enumeration, by its first member. -/
  | enumeration (member : Value)
  | function (f : FunctionId)
  | object (o : ObjectId)
  /-- The fields of an instance, or the declarations of a set, as a dictionary that is always what
  they are. -/
  | fields (o : ObjectId)
  /-- The keys, the values or the entries that a table has at any time. -/
  | tableView (serial : Nat) (aspect : TableAspect) (table : Value)
  | builder (b : BuilderId)
  | definition (d : DefinitionId)
  | plan (p : PlanId)
  | registry (r : RegistryId)
  /-- What compiles the plans of a registry. -/
  | resolver (r : RegistryId)
  | runner (r : RunnerId)
  /-- What runs the plans of a runner. -/
  | evaluator (e : EvaluatorId)
  | settings (s : SettingsId)
  /-- The view of an evaluation that computed attributes and callbacks are given. -/
  | context (e : EvaluationId)
  | evaluation (e : EvaluationId)
  /-- A method of a value, ready to be called. Each time it is asked for it is another one, told
  apart by its serial number; a method of a model or type itself is always the same. -/
  | method (serial : Nat) (receiver : Value) (name : String)
  deriving DecidableEq, Repr

instance : Inhabited Value := ⟨.null⟩

namespace Value

/-- Whether a value can be called at all: functions, models, types and methods. -/
def isCallable : Value → Bool
  | .function _ | .model _ | .type _ | .enumeration _ | .method _ _ _ => true
  | _ => false

/-- What an operation of one value gives that has no meaning for another. -/
def notImplemented : Value := .inner "NotImplementedType" .null "NotImplemented"

/-- A dictionary that can only be read. -/
def readOnly (table : Value) : Value := .inner "mappingproxy" table ""

/-- What is read through a value: the dictionary behind one that can only be read. -/
def behind : Value → Value
  | .inner "mappingproxy" table _ => table
  | v => v

/-- The hook that a value stands for: nothing is no hook. -/
def hook? (v : Value) : Option Value := if v = .null then none else some v

/-- The text that a value is, if it is one. -/
def asText? : Value → Option String
  | .text s => some s
  | .textSymbol _ s => some s
  | .keyword k => some k.text
  | _ => none

/-- The value that has a text, if it is this one. -/
def inText (v : Value) (s : String) : Value := if v.asText? = some s then v else .text s

/-- The integer that a value is, truth values counting as one and zero. -/
def asInt? : Value → Option Int
  | .int n => some n
  | .bool b => some (if b then 1 else 0)
  | _ => none

/-- How many places a set of so many members has. -/
def setPlaces (count : Nat) : Int :=
  if count < 5 then 8 else if count < 19 then 32 else if count < 77 then 128 else 512

/-- The members of a set in the order in which they are met. Whole numbers are met by their places,
their remainders after division by the count of places, and `-1` stands where `-2` does; other
members are met in the order in which they were added. -/
def inSetOrder (members : List Value) : List Value :=
  let places := setPlaces members.length
  match members.mapM fun v => v.asInt?.map fun n => ((if n = -1 then -2 else n) % places, v) with
  | some placed => (placed.mergeSort fun x y => x.1 ≤ y.1).map (·.2)
  | none => members

end Value

end TraitFactory
