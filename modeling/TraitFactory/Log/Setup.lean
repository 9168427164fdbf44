import TraitFactory.Folder.Making
import TraitFactory.Log.Console
import TraitFactory.Log.Lines
import TraitFactory.Text.Blank

/-!
# Setting up the log

The library's log goes to the console and, if asked for, to a file as JSON lines. Setting it up
again replaces what was set up before. Records of other loggers, which nobody set up, are shown
by their message alone when they are warnings or more.
-/

namespace TraitFactory

/-- Where records are written. -/
inductive Sink where
  | console
  | file
  deriving DecidableEq, Repr

/-- How records are written. -/
inductive LineForm where
  | readable
  | json
  deriving DecidableEq, Repr

structure LogHandler where
  sink : Sink
  form : LineForm
  level : LogLevel
  deriving DecidableEq, Repr

/-- **The log as it is set up.** -/
structure LogSetup where
  level : LogLevel
  handlers : List LogHandler
  deriving DecidableEq, Repr

/-- What has been written: each text with the sink it went to. -/
abbrev Written := List (Sink × String)

namespace Cause

def unknownLogLevel (name : String) : Cause := .badValue ("Unknown log level: " ++ name)

end Cause

namespace LogLevel

/-- A level by its name, in whatever letters. -/
def ofText (s : String) : Except Cause LogLevel :=
  match ofName? (Text.capitals s) with
  | some l => .ok l
  | none => .error (.unknownLogLevel s)

end LogLevel

namespace LogSetup

/-- The library's logger. -/
def rootLogger : String := "fixtura"

/-- The threshold in force where none is set. -/
def defaultLevel : LogLevel := .warning

/-- A console handler and, with a file, one for the file. -/
def make (level : LogLevel) (json toFile : Bool) : LogSetup where
  level := level
  handlers := ⟨.console, if json then .json else .readable, level⟩
    :: if toFile then [⟨.file, .json, level⟩] else []

def threshold (s : LogSetup) : LogLevel := if s.level = .notset then defaultLevel else s.level

/-- Whether a logger is the library's or one of its parts. -/
def covers (logger : String) : Bool :=
  logger = rootLogger || logger.startsWith (rootLogger ++ ".")

def write (h : LogHandler) (w : World) (r : LogRecord) : Except Cause (Sink × String) := do
  match h.form with
  | .readable => return (h.sink, ← r.consoleText w none)
  | .json => return (h.sink, ← r.jsonLine w)

/-- A message that ends its line itself needs no break before what is written below it. -/
def withoutBreak (r : LogRecord) (s : String) : String :=
  if r.failure.isSome && s.endsWith "\n" then (s.dropEnd 1).toString else s

/-- **What a record makes the log write.** -/
def emit (s : LogSetup) (w : World) (r : LogRecord) : Except Cause Written :=
  if !r.level.isWritten then .ok []
  else if covers r.logger then
    if r.level.passes s.threshold then
      (s.handlers.filter fun h => r.level.passes h.level).mapM fun h => write h w r
    else .ok []
  else if r.level.passes defaultLevel then do
    return [(.console, r.withFailure (withoutBreak r (← r.text w)))]
  else .ok []

def emitAll (s : LogSetup) (w : World) (rs : List LogRecord) : Except Cause Written := do
  return (← rs.mapM (s.emit w)).flatten

/-- The record that tells that a file is written from now on. -/
def announcement (file : String) : Action LogRecord := do
  let context ← Action.alloc
    (.dict [(.text "log_format", .text "jsonl"), (.text "log_file", .text file)])
  return { logger := rootLogger
           level := .debug
           message := .text "fixtura logging initialized"
           context := some context }

/-- **Sets the log up**, with a file of a folder if there is to be one: what it is then, and what
doing so makes it write. -/
def start (f : Folder) (level : LogLevel) (json : Bool) (file : Option PathName)
    (created : Moment) : Action (LogSetup × Written) := do
  let s := make level json file.isSome
  match file with
  | none => return (s, [])
  | some file =>
    let _ ← Action.ofCause (f.makeRoom file)
    let r := { (← announcement file.text) with created := created.toSeconds }
    return (s, ← Action.ofCause (s.emit (← get) r))

end LogSetup

namespace Written

def console (ws : Written) : List String := (ws.filter (·.1 = .console)).map (·.2)

def file (ws : Written) : List String := (ws.filter (·.1 = .file)).map (·.2)

end Written

end TraitFactory
