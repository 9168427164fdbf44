import TraitFactory.Script.Syntax
import TraitFactory.Text.Quoted

/-!
# What scripts mean

Steps, expressions and literals as programs. An expression's meaning depends on the arguments of
the function it is the body of.
-/

namespace TraitFactory.Script

/-- The values of a step's operands by their names. -/
abbrev Arguments := List (String × Value)

namespace Arguments

def value (a : Arguments) (name : String) : Value := (a.lookup name).getD .null

/-- Where a trait is registered or looked up from. -/
def scope (a : Arguments) : Value := (a.lookup "scope_def").getD (a.value "scope")

def holds (a : Arguments) (name : String) : Bool := a.lookup name = some (.bool true)

def isVia (a : Arguments) (name : String) : Bool := a.lookup "via" = some (.text name)

def run (a : Arguments) : RunArguments where
  strategy := a.value "strategy"
  factory := a.value "factory"
  traits := a.lookup "traits"
  overrides := a.lookup "overrides"
  constructor := a.lookup "constructor"
  persistor := a.lookup "persistor"

end Arguments

/-- **The command of an operation**; those that are no command have none. -/
def Operation.command? (op : Operation) (a : Arguments) : Option Command :=
  let on := a.value "on"
  let name := a.value "name"
  let model := a.value "model"
  let registry := a.lookup "registry"
  let runner := a.lookup "runner"
  match op with
  | .defineFactory =>
    some (.defineFactory registry name model (a.value "parent") (a.lookup "traits"))
  | .defineTrait => some (.defineTrait registry name)
  | .childFactory => some (.childFactory on name model (a.lookup "traits"))
  | .localTrait => some (.localTrait on name)
  | .set => some (.set on name (a.lookup "value") (a.value "computed"))
  | .associate =>
    some (.associate on name (a.value "factory") (a.lookup "traits") (a.lookup "strategy")
      (a.lookup "overrides"))
  | .apply => some (.apply on (a.value "traits"))
  | .initializeWith => some (.initializeWith on (a.value "fn"))
  | .toCreate => some (.toCreate on (a.value "fn"))
  | .callback =>
    let fn := (a.lookup "fn_of").getD (a.value "fn")
    if a.holds "method" then some (.callbackMethod on (a.value "event") fn)
    else some (.callback on (a.value "event") fn)
  | .newTrait => some (.newTrait name)
  | .newFactory => some (.newFactory name (a.value "parent") model)
  | .registerFactory => some (.registerFactory registry (a.value "def"))
  | .registerTrait => some (.registerTrait registry a.scope name (a.value "def"))
  | .resolveTrait => some (.resolveTrait registry a.scope (a.value "ref"))
  | .factory => some (.factory registry (a.value "ref"))
  | .definition => some (.definitionOf on)
  | .declare => some (.declare on name (a.value "value"))
  | .applyTrait => some (.applyTrait on (a.value "ref"))
  | .addCallback => some (.addCallback on (a.value "event") (a.value "fn"))
  | .touch => some (.touch registry)
  | .generation => some (.generation registry)
  | .newRegistry => some .newRegistry
  | .resetRegistry => some (.resetRegistry registry)
  | .resetRunner => some (.resetRunner runner)
  | .invalidate => some (.invalidate registry)
  | .setCache => some (.setCache registry (a.value "enabled"))
  | .compile =>
    if a.isVia "runner" then some (.compileWith runner (a.value "factory") (a.lookup "traits"))
    else some (.compile registry (a.value "factory") (a.lookup "traits"))
  | .applyOverrides =>
    some (.applyOverrides (a.value "plan") (a.lookup "overrides") (a.lookup "constructor")
      (a.lookup "persistor"))
  | .declaration => some (.declarationIn (a.value "plan") name)
  | .callbacksFor => some (.callbacksFor (a.value "plan") (a.value "event"))
  | .newRunner => some (.newRunner registry (a.lookup "config"))
  | .configure => some (.configure (a.lookup "config"))
  | .resetStubIds => some (.resetStubIds runner)
  | .run => some (if a.isVia "method" then .runMethod runner a.run else .run runner a.run)
  | .runList =>
    let count := a.value "count"
    some (if a.isVia "method" then .runListMethod runner count a.run
      else .runList runner count a.run)
  | .evaluate =>
    some (.evaluate runner (a.holds "bare") (a.value "plan") (a.value "strategy")
      (a.lookup "overrides") (a.lookup "constructor") (a.lookup "persistor"))
  | .makeFunction | .group | .compute | .describe | .describeRegistry | .same => none

/-- What a step gives for the result of its command: one that declares a hook gives only that it
has done so. -/
def Operation.resultOf (op : Operation) (v : Value) : Value :=
  match op with
  | .initializeWith | .toCreate | .callback => .bool true
  | _ => v

/-- **A sum**, which is whole as long as all that was added is whole. -/
inductive Total where
  | whole (n : Int)
  | real (x : Double)
  deriving DecidableEq, Repr

namespace Total

/-- The sum as a floating-point number, unless it is beyond them all. -/
def toDouble : Total → Except Cause Double
  | .real x => .ok x
  | .whole n =>
    match Double.ofInt? n with
    | some x => .ok x
    | none => .error .beyondDoubles

def add (t : Total) (v : Value) : Except Cause Total :=
  match v.asInt?, t, v with
  | some n, .whole m, _ => .ok (.whole (m + n))
  | some n, .real x, _ => do return .real (x.add (← (Total.whole n).toDouble))
  | none, t, .float _ y => do return .real ((← t.toDouble).add y)
  | none, _, _ => .error (.wrongType none)

def ofValues (vs : List Value) : Except Cause Total := vs.foldlM add (.whole 0)

end Total

def joinTexts (vs : List Value) : String := String.join (vs.map fun v => v.asText?.getD "")

/-- Goes on only with a builder. -/
def requireBuilder (v : Value) (p : Program) : Program :=
  match v with
  | .builder _ => p
  | _ => .raise (.wrongType none)

/-- Keeps a result under a name. -/
def keep (keptAs : Option String) (v : Value) : Program :=
  match keptAs with
  | some name => .request (.bind name v) .done
  | none => .done v

open Program (request)

/-- Calls a method that takes nothing. -/
def callPlain (name : String) (v : Value) (k : Value → Program) : Program :=
  request (.getAttr v name) fun f => request (.call f [] []) k

mutual

/-- **The value of a literal.** -/
def Literal.eval : Literal → Program
  | .null => .done .null
  | .bool b => .done (.bool b)
  | .int n => .done (.int n)
  | .unreadable digits => .raise (.unreadable digits)
  | .float x => request (.newFloat x) .done
  | .text s => .done (.text s)
  | .bytes bs => .done (.bytes bs)
  | .list items => evalLiterals items fun vs => request (.newList vs) .done
  | .tuple items => evalLiterals items fun vs => request (.newTuple vs) .done
  | .dict entries => evalEntries entries fun es => request (.newDict es) .done
  | .symbol payload => payload.eval.bind fun v => request (.newSymbol v) .done
  | .textSymbol s => request (.newTextSymbol s) .done
  | .sealed label copyable => request (.newSealed label copyable) .done
  | .model m => .done (.model m)
  | .function f => f.eval
  | .computed f => f.eval.bind fun v => request (.newComputed v) .done
  | .association factory traits strategy overrides =>
    factory.eval.bind fun factory =>
      evalOptional traits fun traits =>
        evalOptional strategy fun strategy =>
          evalEntries overrides fun es =>
            request (.newDict es) fun overrides =>
              request (.newAssociation factory traits strategy (some overrides)) .done
  | .fixed value shared => value.eval.bind fun v => request (.newFixed v shared) .done
  | .sharedList key => request (.sharedList key) .done
  | .variable name => request (.variable name) .done

def evalLiterals : List Literal → (List Value → Program) → Program
  | [], k => k []
  | l :: ls, k => l.eval.bind fun v => evalLiterals ls fun vs => k (v :: vs)

def evalOptional : Option Literal → (Option Value → Program) → Program
  | none, k => k none
  | some l, k => l.eval.bind fun v => k (some v)

def evalEntries : List (Literal × Literal) → (List (Value × Value) → Program) → Program
  | [], k => k []
  | (key, value) :: es, k =>
    key.eval.bind fun x => value.eval.bind fun y => evalEntries es fun vs => k ((x, y) :: vs)

def FunctionSource.eval : FunctionSource → Program
  | .written head body => .define head (fun arguments => body.eval arguments) .done
  | .value v => v.eval

/-- **The value of an expression** for the arguments of its function. -/
def Expr.eval (arguments : List Value) : Expr → Program
  | .literal v => v.eval
  | .argument i =>
    match arguments[i]? with
    | some v => .done v
    | none => .raise (.badIndex "list index out of range")
  | .variable name => request (.variable name) .done
  | .item e key => (e.eval arguments).bind fun v => key.eval.bind fun k =>
      request (.getItem v k) .done
  | .field e name => (e.eval arguments).bind fun v => request (.getAttr v name) .done
  | .fieldOr e name default => (e.eval arguments).bind fun v => default.eval.bind fun d =>
      .ask (.getAttr v name) fun
        | .ok x => .done x
        | .error failure => if failure.cause.lacksAttribute then .done d else .fail failure
  | .find e key default => (e.eval arguments).bind fun v =>
      request (.getAttr v "get") fun get =>
        key.eval.bind fun k => evalOptional default fun d =>
          request (.call get (k :: d.toList) []) .done
  | .contains key e => key.eval.bind fun k => (e.eval arguments).bind fun v =>
      request (.contains v k) .done
  | .length e => (e.eval arguments).bind fun v => request (.length v) .done
  | .elements e => (e.eval arguments).bind fun v => request (.elements v) .done
  | .keys e => (e.eval arguments).bind fun v =>
      callPlain "keys" v fun keys => request (.elements keys) .done
  | .values e => (e.eval arguments).bind fun v =>
      callPlain "values" v fun values => request (.elements values) .done
  | .items e => (e.eval arguments).bind fun v =>
      callPlain "items" v fun items => request (.pairs items) .done
  | .toDict e => (e.eval arguments).bind fun v => request (.toDict v) .done
  | .make m es => evalAll arguments es fun vs => request (.construct m vs) .done
  | .instantiate e es keywords => (e.eval arguments).bind fun v =>
      request (.getAttr v "new") fun new =>
        evalAll arguments es fun vs =>
          evalKeywords arguments keywords fun ks => request (.call new vs ks) .done
  | .instantiateWithAll e => (e.eval arguments).bind fun v =>
      request (.getAttr v "new") fun new => request (.callSpread new v) .done
  | .call f es => (f.eval arguments).bind fun f =>
      evalAll arguments es fun vs => request (.call f vs []) .done
  | .setField e name x => (e.eval arguments).bind fun v => (x.eval arguments).bind fun x =>
      request (.setAttr v name x) .done
  | .append e x => (e.eval arguments).bind fun v =>
      request (.getAttr v "append") fun append =>
        (x.eval arguments).bind fun x => request (.call append [x] []) fun _ => .done .null
  | .setItem e key x => (x.eval arguments).bind fun x => (e.eval arguments).bind fun v =>
      key.eval.bind fun k => request (.setItem v k x) .done
  | .concat es => evalTexts arguments es fun vs => .done (.text (joinTexts vs))
  | .sum es => evalAll arguments es fun vs =>
      match Total.ofValues vs with
      | .ok (.whole n) => .done (.int n)
      | .ok (.real x) => request (.newFloat x) .done
      | .error cause => .raise cause
  | .array es => evalAll arguments es fun vs => request (.newList vs) .done
  | .sequence es => evalAll arguments es fun vs => .done (vs.getLast?.getD .null)
  | .count key => request (.count key) .done
  | .announce e => (e.eval arguments).bind fun v => request (.announce v) .done
  | .raise cause => .raise cause
  | .attempt e fallback => (e.eval arguments).rescue fun failure =>
      request (.remember failure) fun _ => fallback.eval arguments
  | .caught => request .lastFailure .done
  | .identical a b => (a.eval arguments).bind fun x => (b.eval arguments).bind fun y =>
      .done (.bool (x = y))
  | .equal a b => (a.eval arguments).bind fun x => (b.eval arguments).bind fun y =>
      request (.equal x y) .done
  | .ifThenElse condition yes no => (condition.eval arguments).bind fun c =>
      request (.isTrue c) fun truth =>
        if truth = .bool true then yes.eval arguments else no.eval arguments
  | .perform s => s.eval

def evalAll (arguments : List Value) : List Expr → (List Value → Program) → Program
  | [], k => k []
  | e :: es, k => (e.eval arguments).bind fun v => evalAll arguments es fun vs => k (v :: vs)

/-- Values as texts, each taken before the next part is evaluated. -/
def evalTexts (arguments : List Value) : List Expr → (List Value → Program) → Program
  | [], k => k []
  | e :: es, k => (e.eval arguments).bind fun v =>
      request (.textOf v) fun t => evalTexts arguments es fun vs => k (t :: vs)

def evalKeywords (arguments : List Value) :
    List (String × Expr) → (List (String × Value) → Program) → Program
  | [], k => k []
  | (name, e) :: es, k => (e.eval arguments).bind fun v =>
      evalKeywords arguments es fun vs => k ((name, v) :: vs)

def Operand.eval : Operand → Program
  | .variable name => request (.variable name) .done
  | .literal v => v.eval
  | .event v => v.eval.bind fun v => request (.event v) .done
  | .function f => f.eval
  | .declared v => v.eval.bind fun v => request (.declared v) .done
  | .entries es => evalEntries es fun es => request (.newDict es) .done

def evalOperands : List (String × Operand) → (Arguments → Program) → Program
  | [], k => k []
  | (name, o) :: os, k => o.eval.bind fun v => evalOperands os fun vs => k ((name, v) :: vs)

/-- **The result of a step.** A step that lacks an operand fails for it once the operands it has
are evaluated. -/
def Step.eval : Step → Program
  | .make op operands lacks body steps keptAs =>
    (evalOperands operands fun a =>
      match lacks with
      | name :: _ => .raise (.missingKey (Text.quoted name))
      | [] =>
        match op with
        | .compute => body.eval []
        | .makeFunction => .done (a.value "fn")
        | .group => requireBuilder (a.value "on") (evalSteps steps)
        | _ =>
          match op.command? a with
          | some c => request (.command c) fun v => .done (op.resultOf v)
          | none => .done .null).bind (keep keptAs)

/-- Steps in their order, up to the first failure. -/
def evalSteps : List Step → Program
  | [] => .done (.bool true)
  | s :: ss => s.eval.bind fun _ => evalSteps ss

end

end TraitFactory.Script
