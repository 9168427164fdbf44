import TraitFactory.Interpreter
import TraitFactory.Report
import TraitFactory.Script.Meaning

/-!
# Sessions

Runs scripts step by step. Each step gives a report or a failure, with what it announced and
logged; a step that fails does not end the session, and what it changed before stays changed.
-/

namespace TraitFactory

open Script

/-- **What a step gave.** -/
structure StepResult where
  outcome : Except Failure Report
  trace : List View
  log : List LogEntry

namespace World

/-- A world with one registry, and a runner on it that comes into force when it is first used. -/
def fresh : World :=
  let settings : RunnerSettings := default
  { registries := #[{}]
    settings := #[settings]
    evaluators :=
      #[⟨.settings ⟨0⟩, .method 0 (.runner ⟨0⟩) Action.associationHook, settings.stubIdStart⟩]
    runners := #[⟨.registry ⟨0⟩, .settings ⟨0⟩, .evaluator ⟨0⟩⟩]
    session := { runnerInForce := false } }

/-- The names, besides one, under which a value is kept, in the order they were first used. -/
def otherNames (w : World) (v : Value) (name : Option String) : List String :=
  (w.session.handles.entries.filter fun e => e.2 = v && some e.1 ≠ name).map (·.1)

/-- The report on a definition or a plan that a step found or made. They are told apart by the
other names they are kept under, and a plan is written out only when it has none. -/
def reportHandle (w : World) (v : Value) (keptAs : Option String) : Report :=
  match v with
  | .definition d =>
    .fields [("$def", .text (w.labelOf d)), ("same_as", .texts (w.otherNames v keptAs))]
  | .plan p =>
    match w.otherNames v keptAs, w.plan? p with
    | [], some plan => .fields [("plan", w.reportPlan plan), ("same_as", .list [])]
    | names, _ => .fields [("same_as", .texts names)]
  | v => .value (w.view v)

/-- The report on a declaration or a callback. -/
def reportPart (w : World) (v : Value) : Report :=
  match w.heap.object? v with
  | some (.declaration d) => w.reportDeclaration d
  | some (.callback c) => w.reportCallback c
  | _ => .value (w.view v)

/-- The report on such a part, or on a list of them. -/
def reportParts (w : World) (v : Value) : Report :=
  match w.heap.object? v with
  | some (.list items) => .list (items.map w.reportPart)
  | _ => w.reportPart v

end World

namespace Action

/-- Puts the runner of a session in force: with settings at once, and without them not before it
is used if it can wait. -/
def openSession (settings : Option Value) (canWait : Bool) : Action Unit := do
  if canWait && settings.isNone then return
  useRunner (← newRunner ⟨0⟩ (← settingsFrom (← entriesOf settings)))

/-- Whether two values are the same and whether they are equal. -/
def compareValues (a b : Value) : Action Report := do
  return .fields [("is", .bool (a = b)), ("eq", .bool (← equal a b))]

/-- Answers an operation that only looks; `none` for all others. -/
def inspect (op : Operation) (a : Arguments) : Action (Option Report) := do
  match op with
  | .describe => do
    let d ← definitionOf (a.value "on")
    some <$> liftExcept ((← get).reportDefinition d)
  | .describeRegistry => do
    let r ← getRegistry (← registryArgument (a.lookup "registry"))
    some <$> liftExcept ((← get).reportRegistry r)
  | .same => some <$> compareValues (a.value "a") (a.value "b")
  | _ => return none

/-- The value of a literal. -/
def literal (v : Literal) : Action Value := v.eval.run Host.standard

/-- The values of operands, in order. -/
def operandValues : List (String × Operand) → Action Arguments
  | [] => return []
  | (name, o) :: os => do
    let v ← o.eval.run Host.standard
    return (name, v) :: (← operandValues os)

/-- Whether an operation gives a plan that may be kept under other names. -/
def givesPlan : Operation → Bool
  | .compile | .applyOverrides => true
  | _ => false

/-- A definition is told apart from others by what it is kept under, whatever gave it. -/
def isDefinition : Value → Bool
  | .definition _ => true
  | _ => false

/-- Whether an operation gives a declaration or callbacks. -/
def givesParts : Operation → Bool
  | .declaration | .callbacksFor | .addCallback => true
  | _ => false

def isInspection : Operation → Bool
  | .describe | .describeRegistry | .same => true
  | _ => false

/-- **Performs a step** and reports on its result. -/
def performStep (s : Step) : Action Report := do
  let .make op operands lacks _ _ keptAs := s
  if isInspection op && lacks.isEmpty then
    return (← inspect op (← operandValues operands)).getD .null
  else
    let v ← s.eval.run Host.standard
    let w ← get
    if givesPlan op || isDefinition v then return w.reportHandle v keptAs
    else if givesParts op then return w.reportParts v
    else return .value (w.view v)

end Action

/-- **Performs one step of a session.** A step that cannot be read fails. -/
def World.step (w : World) (s : Option Step) : StepResult × World :=
  let w := { w with trace := #[], log := #[] }
  let (outcome, w) := match s with
    | some s => (Action.performStep s).execute w
    | none => (Action.wrongType : Action Report).execute w
  (⟨outcome, w.trace.toList, w.log.toList⟩, w)

/-- **Performs a session** from a world on. -/
def World.play (w : World) : List (Option Step) → List StepResult × World
  | [] => ([], w)
  | s :: ss =>
    let (r, w) := w.step s
    let (rs, w) := w.play ss
    (r :: rs, w)

end TraitFactory
