import TraitFactory.Number.Length
import TraitFactory.Text.Quoted

/-!
# Failures

Why a step fails, where in the definitions it failed, and the notes that were added on the way
out. The message of each cause is stated here and nowhere else.
-/

namespace TraitFactory

/-- **Where in the definitions a failure arose.** -/
structure Place where
  factory : Option String := none
  trait : Option String := none
  attr : Option String := none
  deriving DecidableEq, Repr

namespace Place

def part (what : String) : Option String → List String
  | some name => if name.isEmpty then [] else [what ++ " '" ++ name ++ "'"]
  | none => []

/-- A short path such as `factory 'post' > trait 'admin'`; parts without a name are left out. -/
def text (p : Place) : String :=
  " > ".intercalate
    (part "factory" p.factory ++ part "trait" p.trait ++ part "attribute" p.attr)

end Place

/-- **Causes of failure.** The first group is the library's own; the second is what hooks and
the operations on values raise. -/
inductive Cause where
  | general (message : String)
  | nameNotFound (name message : String)
  | traitNotFound (name : String)
  | factoryNotFound (name : String)
  | duplicateDefinition (message : String)
  | traitCycle (path : List String)
  /-- A circle of traits whose names are the letters of a text. -/
  | spelledCycle (path : String)
  | attributeCycle (attr : String) (chain : List String)
  | undefinedAttribute (attr : String)
  | notPersistable (message : String)
  | stubbed (message : String)
  | badSettings (message : String)
  /-- Something that must be a function cannot be called, or a strategy has no such name. -/
  | invalidDeclaration
  | missingKey (message : String)
  | badValue (message : String)
  | wrongType (message : Option String)
  | noAttribute (message : Option String)
  | runtime (message : String)
  | unimportable (message : String)
  | badIndex (message : String)
  | tooDeep
  /-- Bytes that are no text. -/
  | notText
  /-- A text that has no bytes. -/
  | notBytes
  | malformedToml
  /-- Any other kind of failure. -/
  | other (kind message : String)
  deriving DecidableEq, Repr

/-- A number or a moment beyond what its place can hold. -/
def Cause.overflow (message : String) : Cause := .other "OverflowError" message

/-- A number that does not fit where it is wanted. -/
def Cause.tooLargeFor (what : String) : Cause :=
  .overflow ("Python int too large to convert to " ++ what)

def Cause.outOfMemory : Cause := .other "MemoryError" ""

def chainText (names : List String) : String := " -> ".intercalate names

namespace Cause

def duplicateFactory (name : String) : Cause := .duplicateDefinition s!"Duplicate factory '{name}'"

/-- `none` is the global table. -/
def duplicateTrait (name : String) : Option String → Cause
  | none => .duplicateDefinition s!"Duplicate trait '{name}' in global scope"
  | some factory => .duplicateDefinition s!"Duplicate trait '{name}' in factory '{factory}'"

def notAnAttributeName (shown : String) : Cause :=
  .nameNotFound shown s!"Attribute name must be a string, got {shown}"

def noSaveMethod (model : String) : Cause :=
  .notPersistable s!"{model} has no save() method; declare a persistor"

def stubbedMethod (model method : String) : Cause :=
  .stubbed s!"stubbed {model} is not allowed to {method}()"

def valueOrComputed (shown : String) : Cause :=
  .badValue s!"Attribute '{shown}' needs exactly one of value or computed"

def notAStrategy (shown : String) : Cause := .badValue s!"{shown} is not a valid Strategy"

def notAnEvent (shown : String) : Cause := .badValue s!"{shown} is not a valid LifecycleEvent"

def negativeCount (shown : String) : Cause :=
  .badValue s!"count must be non-negative, got {shown}"

def digitLimit : String :=
  s!"Exceeds the limit ({Number.maxDigits} digits) for integer string conversion"

def digitAdvice : String := "; use sys.set_int_max_str_digits() to increase the limit"

/-- A whole number too long to be written. -/
def unwritable : Cause := .badValue (digitLimit ++ digitAdvice)

/-- A whole number too long to be read. -/
def unreadable (digits : Nat) : Cause :=
  .badValue (digitLimit ++ s!": value has {digits} digits" ++ digitAdvice)

def recursionLimit : String := "maximum recursion depth exceeded"

/-- Values whose comparison leads back to itself. -/
def endlessComparison : Cause := .other "RecursionError" (recursionLimit ++ " in comparison")

/-- A whole number beyond every floating-point number. -/
def beyondDoubles : Cause := .overflow "int too large to convert to float"

/-- A position that no sequence is long enough for. -/
def beyondPositions : Cause := .badIndex "cannot fit 'int' into an index-sized integer"

def noAssociationHook (attr : String) : Cause :=
  .wrongType (some s!"Attribute '{attr}' is an association but no association hook is set")

/-- The name under which a cause is reported. -/
def kind : Cause → String
  | .general _ => "FixturaError"
  | .nameNotFound _ _ => "NotFoundError"
  | .traitNotFound _ => "TraitNotFoundError"
  | .factoryNotFound _ => "FactoryNotFoundError"
  | .duplicateDefinition _ => "DuplicateDefinitionError"
  | .traitCycle _ | .spelledCycle _ => "TraitCycleError"
  | .attributeCycle _ _ => "CycleDetectedError"
  | .undefinedAttribute _ => "UndefinedAttributeError"
  | .notPersistable _ => "PersistenceError"
  | .stubbed _ => "StubbedPersistenceError"
  | .badSettings _ => "ConfigError"
  | .invalidDeclaration => "ValidationError"
  | .missingKey _ => "KeyError"
  | .badValue _ => "ValueError"
  | .wrongType _ => "TypeError"
  | .noAttribute _ => "AttributeError"
  | .runtime _ => "RuntimeError"
  | .unimportable _ => "ImportError"
  | .badIndex _ => "IndexError"
  | .tooDeep => "RecursionError"
  | .notText => "UnicodeDecodeError"
  | .notBytes => "UnicodeEncodeError"
  | .malformedToml => "TOMLDecodeError"
  | .other kind _ => kind

/-- The cause that a hook raises by its kind and one message. Some kinds need more than that. -/
def ofKind (kind message : String) : Cause :=
  match kind with
  | "NotFoundError" | "CycleDetectedError" => .wrongType none
  | "TraitCycleError" => .spelledCycle message
  | "FixturaError" => .general message
  | "TraitNotFoundError" => .traitNotFound message
  | "FactoryNotFoundError" => .factoryNotFound message
  | "DuplicateDefinitionError" => .duplicateDefinition message
  | "UndefinedAttributeError" => .undefinedAttribute message
  | "PersistenceError" => .notPersistable message
  | "StubbedPersistenceError" => .stubbed message
  | "ConfigError" => .badSettings message
  | "KeyError" => .missingKey (Text.quoted message)
  | "ValueError" => .badValue message
  | "AttributeError" => .noAttribute (some message)
  | "RuntimeError" => .runtime message
  | "ImportError" => .unimportable message
  | "IndexError" => .badIndex message
  | "TypeError" => .wrongType (some message)
  | kind => .other kind message

/-- The text of a cause. Misuse of a value that no rule of this library words has none. -/
def message? : Cause → Option String
  | .general m | .duplicateDefinition m | .notPersistable m | .stubbed m | .badSettings m => some m
  | .nameNotFound _ m => some m
  | .traitNotFound name => some s!"Trait not registered: \"{name}\""
  | .factoryNotFound name => some s!"Factory not registered: \"{name}\""
  | .traitCycle path => some ("Circular trait inclusion: " ++ chainText path)
  | .spelledCycle path =>
    some ("Circular trait inclusion: " ++ chainText ((Text.codes path).map Text.ofCode))
  | .attributeCycle attr chain =>
    some (s!"Cycle detected while evaluating attribute '{attr}': " ++ chainText chain)
  | .undefinedAttribute attr => some s!"Attribute '{attr}' is not defined"
  | .invalidDeclaration | .notText | .notBytes | .malformedToml => none
  | .missingKey m | .badValue m | .runtime m | .unimportable m | .badIndex m | .other _ m => some m
  | .wrongType m | .noAttribute m => m
  | .tooDeep => some recursionLimit

/-- The library's own causes; those of hooks and values are not. -/
def isOwn : Cause → Bool
  | .general _ | .nameNotFound _ _ | .traitNotFound _ | .factoryNotFound _
  | .duplicateDefinition _ | .traitCycle _ | .spelledCycle _ | .attributeCycle _ _
  | .undefinedAttribute _
  | .notPersistable _ | .stubbed _ | .badSettings _ => true
  | _ => false

/-- Causes that say that something has no attribute of some name. -/
def lacksAttribute : Cause → Bool
  | .noAttribute _ | .undefinedAttribute _ => true
  | _ => false

/-- Causes that say that a table has no entry of some key. -/
def lacksKey : Cause → Bool
  | .missingKey _ | .nameNotFound _ _ | .traitNotFound _ | .factoryNotFound _ => true
  | _ => false

/-- Causes that say that something has no part under a key or at a place. -/
def lacksPart (c : Cause) : Bool := c.lacksKey || c.kind = "IndexError" || c.kind = "LookupError"

end Cause

/-- **A failure on its way out**: its cause, its place if it has one, and its notes, the first
of which states the place. -/
structure Failure where
  cause : Cause
  place : Option Place := none
  notes : List String := []
  deriving DecidableEq, Repr

namespace Failure

def placeNotes : Option Place → List String
  | some p => if p.text.isEmpty then [] else ["in " ++ p.text]
  | none => []

/-- A failure as it arises. -/
def raise (cause : Cause) (place : Option Place := none) : Failure :=
  ⟨cause, place, placeNotes place⟩

def inFactory (cause : Cause) (factory : String) : Failure :=
  raise cause (some { factory := some factory })

def addNote (e : Failure) (note : String) : Failure := { e with notes := e.notes ++ [note] }

/-- A missing trait names the factory searched and the trait that applies it, where known. -/
def traitNotFound (name : String) (factory referencedBy : Option String) : Failure :=
  let known := fun (s : Option String) => s.any (!·.isEmpty)
  if known factory || known referencedBy then
    raise (.traitNotFound name) (some { factory := factory, trait := referencedBy })
  else raise (.traitNotFound name)

/-- `KIND: message`, or the kind alone where there is no message. -/
def text (e : Failure) : String :=
  match e.cause.message? with
  | some m => e.cause.kind ++ ": " ++ m
  | none => e.cause.kind

end Failure

end TraitFactory
