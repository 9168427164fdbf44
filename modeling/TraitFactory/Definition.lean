import TraitFactory.Attribute
import TraitFactory.Slot

/-!
# Definitions

Traits and factories as they are declared. Definitions are kept in one store in the order they
were made. A factory refers to its parent, and its levels are found by going from parent to
parent.
-/

namespace TraitFactory

/-- **A lifecycle callback** of one definition. The object that it is identifies it: one function
declared twice makes two callbacks. -/
structure Callback where
  event : Event
  fn : Value
  owner : String
  object : ObjectId
  deriving DecidableEq, Repr

/-- What a factory has beyond a trait. The parent and the model may be nothing. -/
structure Template where
  parent : Value := .null
  model : Value := .null
  traits : Slot (Table DefinitionId) := .own ∅
  deriving DecidableEq, Repr

/-- **A trait or a factory**: a bundle of attributes, applied traits and hooks, which is a factory
when it has a template. One that was made by hand may have something else than a text for a name,
which is then `given`; `name` is the text of it. A kind that was set by hand is a text too. -/
structure Definition where
  name : String
  given : Option Value := none
  setKind : Option String := none
  attributes : Slot AttributeSet := .own ∅
  appliedTraits : Slot (List String) := .own []
  constructor : Option Value := none
  persistor : Option Value := none
  callbacks : Slot (List Callback) := .own []
  template : Option Template := none
  deriving DecidableEq, Repr

namespace Definition

def isFactory (d : Definition) : Bool := d.template.isSome

def kind (d : Definition) : String :=
  d.setKind.getD (if d.isFactory then "factory" else "trait")

def label (d : Definition) : String := d.kind ++ ":" ++ d.name

/-- The name as a value. -/
def nameValue (d : Definition) : Value := d.given.getD (.text d.name)

/-- Changes the template of a factory. -/
def modifyTemplate (d : Definition) (f : Template → Template) : Definition :=
  { d with template := d.template.map f }

end Definition

/-- Callbacks grouped in the order of the events. -/
def groupCallbacks (cs : List Callback) : List Callback :=
  Event.all.flatMap fun e => cs.filter (·.event = e)

/-- The callbacks by their events, in the order in which these first occur. -/
def callbackTable (cs : List Callback) : List (Event × List Callback) :=
  let events := cs.foldl (fun es c => if c.event ∈ es then es else es ++ [c.event]) []
  events.map fun e => (e, cs.filter (·.event = e))

/-- **The store of definitions.** -/
structure Definitions where
  items : Array Definition
  deriving DecidableEq, Repr

/-- **The levels of a factory**, from the factory itself up to its oldest ancestor. It is closed
when nothing stands above the last of them. -/
structure Lineage where
  levels : List DefinitionId
  closed : Bool
  deriving DecidableEq, Repr

namespace Definitions

instance : EmptyCollection Definitions := ⟨⟨#[]⟩⟩

instance : Inhabited Definitions := ⟨∅⟩

def get? (ds : Definitions) (d : DefinitionId) : Option Definition := ds.items[d.index]?

def size (ds : Definitions) : Nat := ds.items.size

/-- The id that the next definition gets. -/
def next (ds : Definitions) : DefinitionId := ⟨ds.items.size⟩

def push (ds : Definitions) (d : Definition) : Definitions := ⟨ds.items.push d⟩

def modify (ds : Definitions) (d : DefinitionId) (f : Definition → Definition) : Definitions :=
  ⟨ds.items.modify d.index f⟩

def template? (ds : Definitions) (d : DefinitionId) : Option Template :=
  (ds.get? d).bind (·.template)

def nameOf (ds : Definitions) (d : DefinitionId) : String := ((ds.get? d).map (·.name)).getD ""

/-- The levels from a value on; `depth` bounds how many there are. A trait can be put where a
factory is wanted, and has no parent. -/
def lineageFrom (ds : Definitions) : Nat → Value → Lineage
  | _, .null => ⟨[], true⟩
  | depth + 1, .definition d =>
    match ds.template? d with
    | some t =>
      let above := lineageFrom ds depth t.parent
      ⟨d :: above.levels, above.closed⟩
    | none => ⟨[d], false⟩
  | _, _ => ⟨[], false⟩

/-- No lineage that ends has more levels than there are definitions. -/
def lineage (ds : Definitions) (d : DefinitionId) : Lineage :=
  ds.lineageFrom (ds.size + 1) (.definition d)

def levels (ds : Definitions) (d : DefinitionId) : List DefinitionId := (ds.lineage d).levels

/-- Whether a factory and all its ancestors are factories. -/
def hasLineage (ds : Definitions) (d : DefinitionId) : Bool := (ds.lineage d).closed

/-- The model of the nearest level that has one. -/
def model? (ds : Definitions) (d : DefinitionId) : Option Value :=
  (ds.levels d).findSome? fun level => (ds.template? level).bind (·.model.hook?)

/-- Whether the search for a model comes upon a level that is no factory. -/
def losesModel (ds : Definitions) (d : DefinitionId) : Bool :=
  (ds.model? d).isNone && !ds.hasLineage d

end Definitions

end TraitFactory
