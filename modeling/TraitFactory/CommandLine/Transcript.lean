import TraitFactory.CommandLine.Assignment
import TraitFactory.CommandLine.Modules
import TraitFactory.CommandLine.Overview
import TraitFactory.CommandLine.Request
import TraitFactory.Log.Setup
import TraitFactory.Session
import TraitFactory.Settings.Loading
import TraitFactory.Text.Escape

/-!
# Runs of the command line

Reads the arguments, loads settings and modules, performs the command, and tells all that came
of it: the exit status, what was shown and printed, what went to the log, and the failure that
ended the run if it was none of the library's own.
-/

namespace TraitFactory

/-- **What a run finds around it.** -/
structure Surroundings where
  folder : Folder
  environment : Settings.Environment
  modules : List Module
  now : Moment

/-- **What came of a run.** -/
structure Transcript where
  exit : Nat := 0
  output : String := ""
  shown : List Display := []
  /-- Messages on what went wrong, which follow what the log wrote. -/
  messages : List String := []
  written : Written := []
  /-- The file that the log writes to, once it does. -/
  logFile : Option PathName := none
  usage : Option UsageError := none
  escaped : Option Failure := none
  trace : List View := []

namespace Transcript

/-- All that was written for people to read on the side. -/
def diagnostics (t : Transcript) : List String :=
  (t.written.console ++ t.messages).map fun s => Text.ofChars (Text.spelled s)

end Transcript

/-- **Why a command stops.** -/
inductive Halt where
  | usage (e : UsageError)
  /-- A failure that is told of, after some words on where it arose. -/
  | reported (words : String) (e : Failure)
  /-- A failure that ends the run after something may have been shown. -/
  | escaped (e : Failure) (shown : List Display := [])
  deriving Repr

namespace Halt

/-- The library's own failures are told of; all others end the run as they are. -/
def ofFailure (e : Failure) : Halt := if e.cause.isOwn then .reported "" e else .escaped e

/-- A module that cannot be loaded is told of by its name, and without notes where its loading
was refused. -/
def ofLoading (module : String) (e : Failure) : Halt :=
  match e.cause with
  | .unimportable _ => .reported ("cannot import " ++ module ++ ": ") { e with notes := [] }
  | cause => if cause.isOwn then .reported (module ++ ": ") e else .escaped e

def messages : Halt → List String
  | .reported words e =>
    (("Error: " ++ words ++ e.cause.message?.getD "") :: e.notes.map ("  " ++ ·)).map
      Text.withoutEscapes
  | _ => []

def exit : Halt → Nat
  | .usage _ => 2
  | _ => 1

def transcript (h : Halt) : Transcript where
  exit := h.exit
  shown := match h with
    | .escaped _ shown => shown
    | _ => []
  messages := h.messages
  usage := match h with
    | .usage e => some e
    | _ => none
  escaped := match h with
    | .escaped e _ => some e
    | _ => none

end Halt

/-- What a command gives when it comes to its end. -/
structure CommandResult where
  output : String := ""
  shown : List Display := []

/-- The steps of a command, each of which may stop it. -/
abbrev CommandRun := ExceptT Halt (StateM World)

namespace CommandRun

def execute {α : Type} (a : CommandRun α) (w : World) : Except Halt α × World :=
  StateT.run (ExceptT.run a) w

/-- Performs an action whose failure stops the command. -/
def perform {α : Type} (a : Action α) (halt : Failure → Halt := Halt.ofFailure) : CommandRun α :=
  fun w =>
    match a.execute w with
    | (.ok x, w) => (.ok x, w)
    | (.error e, w) => (.error (halt e), w)

def loadAll (modules : List Module) : List String → List String → CommandRun Unit
  | _, [] => return
  | loaded, name :: names => do
    let loaded ← perform (Action.loadModule modules loaded name) (Halt.ofLoading name)
    loadAll modules loaded names

/-- A cause that nobody tells of ends the run, after what has been shown. -/
def orEscape {α : Type} (x : Except Cause α) (shown : List Display := []) : CommandRun α :=
  match x with
  | .ok x => return x
  | .error c => throw (.escaped (Failure.raise c) shown)

def assignment (s : String) : CommandRun Assignment :=
  match Assignment.ofText s with
  | .ok a => return a
  | .error (.usage e) => throw (.usage e)
  | .error (.cause c) => orEscape (.error c)

/-- The session's registry. -/
def registry : Action RegistryId := do Action.registryOf (← get).session.runner

/-- Shows the factories of the session's first registry, and then its global traits. Without
factories only this is told. -/
def factories : CommandRun CommandResult := do
  let r ← perform (Action.getRegistry ⟨0⟩)
  let w ← get
  if w.holdsNothing r.factories then
    return { shown := [.line "[dim]No factories registered.[/dim]"] }
  let sheet ← orEscape (w.factoriesSheet r)
  let globals ← orEscape (w.globalsLine r) [.sheet sheet]
  return { shown := .sheet sheet :: globals }

/-- Shows what a plan is made of: its layers, and the attributes that they flatten to. -/
def plan (r : CommandRequest) : CommandRun CommandResult := do
  let p ← perform do
    let traits ← Action.alloc (.list (r.traits.map .text))
    Action.getPlan (← Action.compile (← registry) (.text r.factory) (some traits))
  let attributes ← orEscape ((← get).attributesSheet p) [.sheet p.layersSheet]
  return { shown := [.sheet p.layersSheet, .sheet attributes] }

/-- Runs a factory for its attributes, with assignments as overrides. -/
def attributesOf (r : CommandRequest) (assignments : List Assignment) : Action Value := do
  let entries ← assignments.mapM fun a => return (a.key, ← Action.ofJson a.value)
  let traits ← Action.alloc (.tuple (r.traits.map .text))
  let overrides ← Parts.dict ((Table.ofList entries).entries.map fun e => (.text e.1, e.2))
  Action.run Host.standard (← get).session.runner
    { strategy := .text Strategy.attributesFor.name
      factory := .text r.factory
      traits := some traits
      overrides := overrides }

def attributes (r : CommandRequest) : CommandRun CommandResult := do
  let assignments ← r.assignments.mapM assignment
  let v ← perform (attributesOf r assignments)
  let j ← orEscape ((← get).toJson v)
  return { output := j.indented ++ "\n" }

/-- **Performs a command** once the modules it names are loaded. -/
def command (modules : List Module) (name : CommandName) (r : CommandRequest) :
    CommandRun CommandResult := do
  loadAll modules [] r.modules
  match name with
  | .factories => factories
  | .plan => plan r
  | .attributes => attributes r

end CommandRun

namespace CommandLine

def version : String := "fixtura 0.3.0"

def help : String :=
  "Usage: fixtura [OPTIONS] COMMAND MODULES...\n\n"
    ++ "Commands:\n"
    ++ "  factories   List registered factories and traits.\n"
    ++ "  plan        Show the compiled layer stack and where each attribute comes from.\n"
    ++ "  attributes  Print attributes_for the factory as JSON.\n"

/-- Puts settings and the log in force. What was logged before goes nowhere. -/
def prepare (f : Folder) (r : ProgramRequest) (settings : Settings) (now : Moment) :
    Action (LogSetup × Written) := do
  let _ ← Action.configure (.ofSettings settings)
  let name := if r.verbose then "DEBUG" else settings.logLevel
  let level ← Action.ofCause (LogLevel.ofText name)
  let started ← LogSetup.start f level false r.logFile now
  modify fun w => { w with log := #[] }
  return started

/-- What the log wrote of the library's entries. -/
def writtenLog (s : LogSetup) (w : World) (now : Moment) : Written :=
  match s.emitAll w (w.log.toList.map (·.record now)) with
  | .ok written => written
  | .error _ => []

/-- The run of a command under settings. -/
def runCommand (s : Surroundings) (r : ProgramRequest) (settings : Settings) : Transcript :=
  match (prepare s.folder r settings s.now).execute World.fresh with
  | (.error e, _) => (Halt.ofFailure e).transcript
  | (.ok (setup, written), w) =>
    match CommandRequest.read r.command r.arguments with
    | .error e => { (Halt.usage e).transcript with written := written, logFile := r.logPlace }
    | .ok none => { output := help, written := written, logFile := r.logPlace }
    | .ok (some request) =>
      let (outcome, w) := (CommandRun.command s.modules r.command request).execute w
      let t : Transcript := match outcome with
        | .ok result => { output := result.output, shown := result.shown }
        | .error halt => halt.transcript
      { t with
        written := written ++ writtenLog setup w s.now
        logFile := r.logPlace
        trace := w.trace.toList }

/-- The modules that arguments name, as far as they can be read. -/
def modulesNamed (args : List String) : List String :=
  match Opening.read args with
  | .ok (.request r) =>
    match CommandRequest.read r.command r.arguments with
    | .ok (some request) => request.modules.map fun name => (name.splitOn ".").headD name
    | _ => []
  | _ => []

/-- The file of settings that arguments name. -/
def configNamed (args : List String) : Option PathName :=
  match Opening.read args with
  | .ok (.request r) => r.config
  | _ => none

/-- **Runs the command line.** -/
def run (s : Surroundings) (args : List String) : Transcript :=
  match Opening.read args with
  | .error e => (Halt.usage e).transcript
  | .ok .version => { output := version ++ "\n" }
  | .ok .help => { output := help }
  | .ok (.request r) =>
    match Settings.load s.folder s.environment r.config with
    | .error e => (Halt.ofFailure (Failure.raise e.cause)).transcript
    | .ok settings => runCommand s r settings

end CommandLine

end TraitFactory
