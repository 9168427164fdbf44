import TraitFactory.Definition
import TraitFactory.Failure
import TraitFactory.Settings

/-!
# Requests

Everything a hook may ask for: operations on values, the session's variables, and the public
operations of the library itself. Arguments are values that have already been computed.
-/

namespace TraitFactory

/-- **Arguments of a run**, whatever its kind. Overrides are a dictionary. -/
structure RunArguments where
  strategy : Value
  factory : Value
  traits : Option Value := none
  overrides : Option Value := none
  constructor : Option Value := none
  persistor : Option Value := none
  deriving Repr

/-- Operations that declare, register, compile and run. Where a registry or a runner is not
given, the session's own is meant. -/
inductive Command where
  | defineFactory (registry : Option Value) (name model parent : Value)
      (traits : Option Value)
  | defineTrait (registry : Option Value) (name : Value)
  | childFactory (on name model : Value) (traits : Option Value)
  | localTrait (on name : Value)
  | set (on name : Value) (value : Option Value) (computed : Value)
  | associate (on name factory : Value) (traits strategy overrides : Option Value)
  | apply (on traits : Value)
  | initializeWith (on fn : Value)
  | toCreate (on fn : Value)
  | callback (on event fn : Value)
  /-- The hook declared through the method of the event's name. -/
  | callbackMethod (on event fn : Value)
  | newTrait (name : Value)
  | newFactory (name parent model : Value)
  | registerFactory (registry : Option Value) (definition : Value)
  | registerTrait (registry : Option Value) (scope name definition : Value)
  | resolveTrait (registry : Option Value) (scope ref : Value)
  | factory (registry : Option Value) (ref : Value)
  | definitionOf (on : Value)
  | declare (definition name value : Value)
  | applyTrait (definition ref : Value)
  | addCallback (definition event fn : Value)
  | touch (registry : Option Value)
  | generation (registry : Option Value)
  | newRegistry
  | resetRegistry (registry : Option Value)
  | resetRunner (runner : Option Value)
  | invalidate (registry : Option Value)
  | setCache (registry : Option Value) (enabled : Value)
  | compile (registry : Option Value) (factory : Value) (traits : Option Value)
  | compileWith (runner : Option Value) (factory : Value) (traits : Option Value)
  | applyOverrides (plan : Value) (overrides constructor persistor : Option Value)
  | declarationIn (plan name : Value)
  | callbacksFor (plan event : Value)
  /-- Settings are a dictionary of named values. -/
  | newRunner (registry settings : Option Value)
  | configure (settings : Option Value)
  | resetStubIds (runner : Option Value)
  | run (runner : Option Value) (arguments : RunArguments)
  /-- The method named for the strategy, with traits and overrides as its own arguments. -/
  | runMethod (runner : Option Value) (arguments : RunArguments)
  | runList (runner : Option Value) (count : Value) (arguments : RunArguments)
  | runListMethod (runner : Option Value) (count : Value) (arguments : RunArguments)
  /-- Runs a compiled plan; a bare evaluator builds no associations. -/
  | evaluate (runner : Option Value) (bare : Bool) (plan strategy : Value)
      (overrides constructor persistor : Option Value)
  deriving Repr

/-- **What a hook may ask for.** -/
inductive Request where
  -- new objects
  | newList (items : List Value)
  | newTuple (items : List Value)
  | newDict (entries : List (Value × Value))
  | newFloat (x : Double)
  | newSymbol (payload : Value)
  | newTextSymbol (s : String)
  | newSealed (label : String) (copyable : Bool)
  | newFixed (value : Value) (shared : Bool)
  | newComputed (fn : Value)
  | newAssociation (factory : Value) (traits strategy overrides : Option Value)
  | construct (m : Model) (arguments : List Value)
  -- operations on values
  | getAttr (v : Value) (name : String)
  | setAttr (v : Value) (name : String) (x : Value)
  | getItem (v key : Value)
  | setItem (v key x : Value)
  | contains (v key : Value)
  | length (v : Value)
  | elements (v : Value)
  /-- The elements of a value, each of which has two parts. -/
  | pairs (v : Value)
  | toDict (v : Value)
  | equal (a b : Value)
  | isTrue (v : Value)
  | textOf (v : Value)
  /-- The event that a value names. -/
  | event (v : Value)
  /-- The definition of a builder; anything else itself. -/
  | declared (v : Value)
  | call (f : Value) (arguments : List Value) (keywords : List (String × Value))
  /-- Calls with the entries of a table as keywords. -/
  | callSpread (f table : Value)
  -- the session
  | variable (name : String)
  | bind (name : String) (v : Value)
  | sharedList (key : String)
  | count (key : String)
  | announce (v : Value)
  | remember (e : Failure)
  | lastFailure
  | command (c : Command)
  deriving Repr

end TraitFactory
