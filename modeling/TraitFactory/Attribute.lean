import TraitFactory.Strategy
import TraitFactory.Table
import TraitFactory.Value

/-!
# Attributes

How an attribute gets its value, and ordered sets of such declarations. A layer is put over
another by merging their sets: the upper declaration of a name wins, at the place the lower one
had.
-/

namespace TraitFactory

/-- **An instance of another factory**, built on demand.

* `factory` is the factory to build, the attribute's own name when absent.
* `traits` and `overrides` are passed to that run; the overrides are a dictionary.
* `strategy` is fixed when present; otherwise the surrounding run decides. -/
structure Association where
  factory : Option String
  traits : List String
  overrides : Value
  strategy : Option Strategy
  deriving DecidableEq, Repr

/-- **How an attribute gets its value.** A fixed value is copied for each evaluation unless it
is shared; a computed one is a function of the evaluation's context. -/
inductive AttributeValue where
  | fixed (value : Value) (shared : Bool)
  | computed (fn : Value)
  | association (a : Association)
  deriving DecidableEq, Repr

/-- One named declaration with the label of the definition that made it. It is an object, and so
is its value. -/
structure Declaration where
  name : String
  value : AttributeValue
  origin : String
  object : ObjectId
  valueObject : ObjectId
  deriving DecidableEq, Repr

instance : Inhabited Declaration := ⟨⟨"", .fixed .null false, "", ⟨0⟩, ⟨0⟩⟩⟩

/-- **Declarations by name, in declaration order.** -/
structure AttributeSet where
  table : Table Declaration
  deriving DecidableEq, Repr

namespace AttributeSet

instance : EmptyCollection AttributeSet := ⟨⟨∅⟩⟩

instance : Inhabited AttributeSet := ⟨∅⟩

/-- Declares a name, or replaces its declaration where it stands. -/
def declare (s : AttributeSet) (d : Declaration) : AttributeSet := ⟨s.table.insert d.name d⟩

def ofList (ds : List Declaration) : AttributeSet := ds.foldl declare ∅

def declarations (s : AttributeSet) : List Declaration := s.table.values

def names (s : AttributeSet) : List String := s.table.keys

def get? (s : AttributeSet) (name : String) : Option Declaration := s.table.get? name

def size (s : AttributeSet) : Nat := s.table.size

/-- Puts this set on top of other declarations. -/
def mergeOver (s : AttributeSet) (others : List Declaration) : AttributeSet :=
  s.declarations.foldl declare (ofList others)

@[simp] theorem names_declare (s : AttributeSet) (d : Declaration) :
    (s.declare d).names = if d.name ∈ s.names then s.names else s.names ++ [d.name] := by
  by_cases h : d.name ∈ s.table.keys
  · simp [declare, names, Table.keys_insert_of_mem d h, h]
  · simp [declare, names, Table.keys_insert_of_not_mem d h, h]

@[simp] theorem get?_declare_self (s : AttributeSet) (d : Declaration) :
    (s.declare d).get? d.name = some d := by
  simp [declare, get?]

theorem get?_declare_of_ne {s : AttributeSet} {d : Declaration} {name : String}
    (h : name ≠ d.name) : (s.declare d).get? name = s.get? name := by
  simp [declare, get?, Table.get?_insert_of_ne s.table d h]

end AttributeSet

end TraitFactory
