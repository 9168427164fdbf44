import TraitFactory.Hook.Program

/-!
# Scripts

A script declares factories, compiles plans and runs them, step by step. Steps name the results
of earlier steps; literals describe values, and expressions are the bodies of the functions that
a script declares as hooks.
-/

namespace TraitFactory.Script

/-- What a step does. -/
inductive Operation where
  | defineFactory
  | defineTrait
  | childFactory
  | localTrait
  | set
  | associate
  | apply
  | initializeWith
  | toCreate
  | callback
  | makeFunction
  | group
  | newTrait
  | newFactory
  | registerFactory
  | registerTrait
  | resolveTrait
  | factory
  | definition
  | declare
  | applyTrait
  | addCallback
  | touch
  | generation
  | newRegistry
  | resetRegistry
  | resetRunner
  | invalidate
  | setCache
  | compile
  | applyOverrides
  | newRunner
  | configure
  | resetStubIds
  | run
  | runList
  | evaluate
  | compute
  | describe
  | describeRegistry
  | declaration
  | callbacksFor
  | same
  deriving DecidableEq, Repr

mutual

/-- **Values as scripts write them.** A literal is made anew each time it is reached. -/
inductive Literal where
  | null
  | bool (b : Bool)
  | int (n : Int)
  /-- A whole number of more digits than can be read. -/
  | unreadable (digits : Nat)
  | float (x : Double)
  | text (s : String)
  | bytes (bs : List UInt8)
  | list (items : List Literal)
  | tuple (items : List Literal)
  | dict (entries : List (Literal × Literal))
  | symbol (payload : Literal)
  | textSymbol (s : String)
  | sealed (label : String) (copyable : Bool)
  | model (m : Model)
  | function (f : FunctionSource)
  | computed (f : FunctionSource)
  | association (factory : Literal) (traits strategy : Option Literal)
      (overrides : List (Literal × Literal))
  | fixed (value : Literal) (shared : Bool)
  | sharedList (key : String)
  | variable (name : String)

/-- A function written out, or a value in the place of one. -/
inductive FunctionSource where
  | written (head : FunctionHead) (body : Expr)
  | value (v : Literal)

/-- **Bodies of functions.** Parts are evaluated from left to right. -/
inductive Expr where
  | literal (v : Literal)
  | argument (i : Nat)
  | variable (name : String)
  | item (e : Expr) (key : Literal)
  | field (e : Expr) (name : String)
  | fieldOr (e : Expr) (name : String) (default : Literal)
  | find (e : Expr) (key : Literal) (default : Option Literal)
  | contains (key : Literal) (e : Expr)
  | length (e : Expr)
  | elements (e : Expr)
  | keys (e : Expr)
  | values (e : Expr)
  | items (e : Expr)
  | toDict (e : Expr)
  | make (m : Model) (arguments : List Expr)
  | instantiate (e : Expr) (arguments : List Expr) (keywords : List (String × Expr))
  | instantiateWithAll (e : Expr)
  | call (f : Expr) (arguments : List Expr)
  | setField (e : Expr) (name : String) (x : Expr)
  | append (e x : Expr)
  /-- The value is evaluated before the target. -/
  | setItem (e : Expr) (key : Literal) (x : Expr)
  | concat (parts : List Expr)
  | sum (parts : List Expr)
  | array (parts : List Expr)
  | sequence (parts : List Expr)
  | count (key : String)
  | announce (e : Expr)
  | raise (cause : Cause)
  | attempt (e fallback : Expr)
  | caught
  | identical (a b : Expr)
  | equal (a b : Expr)
  | ifThenElse (condition yes no : Expr)
  | perform (s : Step)

/-- What a step is given under a name. -/
inductive Operand where
  | variable (name : String)
  | literal (v : Literal)
  /-- The name of an event, which is looked up before anything else is evaluated. -/
  | event (v : Literal)
  | function (f : FunctionSource)
  | entries (es : List (Literal × Literal))
  /-- A definition, which may be given by its builder. -/
  | declared (v : Literal)

/-- **One step**: an operation with its operands in the order of their evaluation, the names of
operands it lacks, the expression it computes, the steps it takes, and the name under which its
result is kept. -/
inductive Step where
  | make (operation : Operation) (operands : List (String × Operand)) (lacks : List String)
      (body : Expr) (steps : List Step) (keptAs : Option String)

end

instance : Inhabited Literal := ⟨.null⟩
instance : Inhabited Expr := ⟨.caught⟩

end TraitFactory.Script
