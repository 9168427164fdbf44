/-!
# Strategies and lifecycle events

A strategy says how far a run goes: to the attributes, to an instance, to a persisted instance,
or to a stand-in that is not persisted. Callbacks fire at four events on the way.
-/

namespace TraitFactory

inductive Strategy where
  | attributesFor
  | build
  | create
  | buildStubbed
  deriving DecidableEq, Repr

namespace Strategy

def all : List Strategy := [.attributesFor, .build, .create, .buildStubbed]

def name : Strategy → String
  | .attributesFor => "attributes_for"
  | .build => "build"
  | .create => "create"
  | .buildStubbed => "build_stubbed"

def find? (s : String) : Option Strategy := all.find? (·.name = s)

end Strategy

/-- Points of a run at which callbacks fire. -/
inductive Event where
  | afterBuild
  | beforeCreate
  | afterCreate
  | afterStub
  deriving DecidableEq, Repr

namespace Event

def all : List Event := [.afterBuild, .beforeCreate, .afterCreate, .afterStub]

def name : Event → String
  | .afterBuild => "after_build"
  | .beforeCreate => "before_create"
  | .afterCreate => "after_create"
  | .afterStub => "after_stub"

def find? (s : String) : Option Event := all.find? (·.name = s)

end Event

/-- What happens to an instance after its construction. -/
inductive Stage where
  /-- Takes a synthetic id and disables the methods that touch persistence. -/
  | stub
  | fire (e : Event)
  | persist
  deriving DecidableEq, Repr

/-- **The stages of each strategy, in order.** Persistence stands between the callbacks before
and after creation. -/
def Strategy.stages : Strategy → List Stage
  | .attributesFor => []
  | .build => [.fire .afterBuild]
  | .create => [.fire .afterBuild, .fire .beforeCreate, .persist, .fire .afterCreate]
  | .buildStubbed => [.stub, .fire .afterStub]

end TraitFactory
