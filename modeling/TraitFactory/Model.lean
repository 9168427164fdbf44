/-!
# Models

A model is the kind of thing a factory builds: it says how an instance is constructed, which
methods it has and which assignments it takes. Models are descriptions, so two models are equal
when their descriptions are.
-/

namespace TraitFactory

/-- What a method of an instance does when it is called without arguments. -/
inductive Method where
  /-- Announces all fields of the instance. -/
  | announceFields
  /-- Announces the value of one field. -/
  | announceField (field : String)
  /-- Adds its own name to a list kept in a field. -/
  | noteDown (field : String)
  /-- Refuses to run. -/
  | refuse (message : String)
  deriving DecidableEq, Repr

/-- **Model of an instance.**

* `parameters` are the constructor's arguments; each is kept in a field of its name. With
  `openFields` the constructor takes any keyword instead and no positional argument.
* `refusal` is the message of a constructor that always fails.
* `listFields` start as new empty lists, and `blankFields` read as nothing until they are set.
* `settable` lists the names that may be assigned, when not all may; `constants` may be read
  only.
* With `announces`, every assignment is announced before it is made.
* `base` is the model whose methods and shared values these are, if it is another one. -/
structure Model where
  name : String
  base : Option String := none
  parameters : List String := []
  openFields : Bool := false
  refusal : Option String := none
  listFields : List String := []
  blankFields : List String := []
  methods : List (String × Method) := []
  settable : Option (List String) := none
  constants : List (String × String) := []
  announces : Bool := false
  deriving DecidableEq, Repr

namespace Model

/-- The model of factories that name none: any fields, nothing else. -/
def namespaceModel : Model := { name := "SimpleNamespace", openFields := true }

def recordMethods : List (String × Method) :=
  ["save", "delete", "refresh", "reload"].map fun m => (m, .noteDown "events")

/-- The models that scripts may name. -/
def catalogue : List Model :=
  [{ name := "Plain" },
   { name := "Saver", methods := [("save", .announceFields)] },
   { name := "Record", listFields := ["events"], blankFields := ["name", "role"],
     methods := recordMethods },
   { name := "Child", base := some "Record", listFields := ["events"],
     blankFields := ["name", "role"], methods := recordMethods },
   { name := "Named", parameters := ["name"], methods := [("save", .announceField "name")] },
   { name := "FailSave", methods := [("save", .refuse "save failed")] },
   { name := "NullSave", blankFields := ["save"] },
   { name := "FailInit", refusal := some "init failed" },
   { name := "Slots", settable := some ["name", "id"] },
   { name := "ReadOnly", constants := [("name", "fixed")] },
   { name := "Tracer", announces := true },
   namespaceModel]

def find? (name : String) : Option Model := catalogue.find? (·.name = name)

def method? (m : Model) (name : String) : Option Method := m.methods.lookup name

/-- The model that methods and shared values belong to. -/
def owner (m : Model) : Model := (m.base.bind find?).getD m

/-- The names that a model keeps only for its instances. -/
def descriptors (m : Model) : List String := m.settable.getD [] ++ m.constants.map (·.1)

/-- The name of the type of what is kept for instances: a place, or a constant. -/
def descriptorType (m : Model) : String :=
  if m.settable.isSome then "member_descriptor" else "property"

end Model

end TraitFactory
