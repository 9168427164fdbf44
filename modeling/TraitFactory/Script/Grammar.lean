import TraitFactory.Script.Syntax

/-!
# Grammar of steps

The names of the operations, and the operands that each takes, in the order in which they are
evaluated.
-/

namespace TraitFactory.Script

/-- How an operand is written. -/
inductive OperandKind where
  /-- The name of an earlier result. -/
  | variable
  | literal
  /-- The name of an event. -/
  | event
  | function
  | entries
  /-- Settings by their names. -/
  | settings
  /-- The name of a model. -/
  | model
  /-- The name of a definition or of its builder. -/
  | defined
  /-- A definition, its builder, or what names it. -/
  | parent
  deriving DecidableEq, Repr

structure OperandRule where
  name : String
  kind : OperandKind
  required : Bool
  deriving DecidableEq, Repr

namespace OperandRule

def given (name : String) : OperandRule := ⟨name, .variable, true⟩

def perhaps (name : String) : OperandRule := ⟨name, .variable, false⟩

def literal (name : String) : OperandRule := ⟨name, .literal, true⟩

def option (name : String) : OperandRule := ⟨name, .literal, false⟩

def function (name : String) : OperandRule := ⟨name, .function, true⟩

def hook (name : String) : OperandRule := ⟨name, .function, false⟩

def model : OperandRule := ⟨"model", .model, false⟩

def scope : OperandRule := ⟨"scope_def", .defined, false⟩

def parent : OperandRule := ⟨"parent", .parent, false⟩

def overrides : OperandRule := ⟨"overrides", .entries, false⟩

def config : OperandRule := ⟨"config", .settings, false⟩

end OperandRule

namespace Operation

/-- The name of each operation. -/
def names : List (Operation × String) :=
  [(.defineFactory, "define_factory"), (.defineTrait, "define_trait"), (.childFactory, "child"),
    (.localTrait, "trait"), (.set, "set"), (.associate, "association"), (.apply, "apply"),
    (.initializeWith, "initialize_with"), (.toCreate, "to_create"), (.callback, "callback"),
    (.makeFunction, "function"), (.group, "with"), (.newTrait, "new_trait"),
    (.newFactory, "new_factory"), (.registerFactory, "register_factory"),
    (.registerTrait, "register_trait"), (.resolveTrait, "resolve_trait"), (.factory, "factory"),
    (.definition, "definition"), (.declare, "declare"), (.applyTrait, "apply_trait"),
    (.addCallback, "add_callback"), (.touch, "touch"), (.generation, "generation"),
    (.newRegistry, "new_registry"), (.resetRegistry, "reset_registry"), (.resetRunner, "reset"),
    (.invalidate, "invalidate"), (.setCache, "set_cache"), (.compile, "compile"),
    (.applyOverrides, "apply_overrides"), (.newRunner, "runner"), (.configure, "configure"),
    (.resetStubIds, "reset_stub_ids"), (.run, "run"), (.runList, "run_list"),
    (.evaluate, "evaluate"), (.compute, "eval"), (.describe, "describe"),
    (.describeRegistry, "registry"), (.declaration, "declaration"),
    (.callbacksFor, "callbacks_for"), (.same, "same")]

def find? (name : String) : Option Operation :=
  (names.find? fun n => n.2 = name).map (·.1)

open OperandRule

/-- What all runs take. -/
def runOperands : List OperandRule :=
  [literal "strategy", literal "factory", option "traits", overrides, hook "constructor",
    hook "persistor", option "via"]

/-- **The operands of an operation.** -/
def operands : Operation → List OperandRule
  | .defineFactory =>
    [perhaps "registry", literal "name", model, parent, option "traits"]
  | .defineTrait => [perhaps "registry", literal "name"]
  | .childFactory => [given "on", literal "name", model, option "traits"]
  | .localTrait => [given "on", literal "name"]
  | .set => [given "on", literal "name", option "value", hook "computed"]
  | .associate =>
    [given "on", literal "name", option "factory", option "traits", option "strategy", overrides]
  | .apply => [given "on", literal "traits"]
  | .initializeWith | .toCreate => [given "on", function "fn"]
  | .callback => [given "on", literal "event", hook "fn", perhaps "fn_of", option "method"]
  | .makeFunction => [function "fn"]
  | .group | .definition | .describe => [given "on"]
  | .newTrait => [literal "name"]
  | .newFactory => [literal "name", perhaps "parent", model]
  | .registerFactory => [perhaps "registry", given "def"]
  | .registerTrait =>
    [perhaps "registry", scope, option "scope", literal "name", given "def"]
  | .resolveTrait => [perhaps "registry", scope, option "scope", literal "ref"]
  | .factory => [perhaps "registry", literal "ref"]
  | .declare => [given "on", literal "name", literal "value"]
  | .applyTrait => [given "on", literal "ref"]
  | .addCallback => [given "on", literal "event", function "fn"]
  | .touch | .generation | .resetRegistry | .invalidate | .describeRegistry =>
    [perhaps "registry"]
  | .newRunner => [perhaps "registry", config]
  | .configure => [config]
  | .newRegistry | .compute => []
  | .resetRunner | .resetStubIds => [perhaps "runner"]
  | .setCache => [perhaps "registry", literal "enabled"]
  | .compile =>
    [perhaps "registry", perhaps "runner", literal "factory", option "traits", option "via"]
  | .applyOverrides => [given "plan", overrides, hook "constructor", hook "persistor"]
  | .run => perhaps "runner" :: runOperands
  | .runList => perhaps "runner" :: literal "count" :: runOperands
  | .evaluate =>
    [perhaps "runner", given "plan", literal "strategy", overrides, hook "constructor",
      hook "persistor", option "bare"]
  | .declaration => [given "plan", literal "name"]
  | .callbacksFor => [⟨"event", .event, true⟩, given "plan"]
  | .same => [given "a", given "b"]

end Operation

end TraitFactory.Script
