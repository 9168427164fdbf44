import TraitFactory.Log.Clock
import TraitFactory.Log.Message

/-!
# Log records

One message on its way to the log: which logger it came through, at which level, when and from
where in a program, with a context and a failure if it has them.
-/

namespace TraitFactory

/-- The place in a program that a record came from. -/
structure Origin where
  file : String := ""
  line : Int := 0
  function : Option String := none
  deriving DecidableEq, Repr

/-- **A record.** A failure that was asked for where there is none is kept as `some none`. -/
structure LogRecord where
  logger : String
  level : LogLevel
  message : Value
  values : List Value := []
  /-- Seconds since the start of the year 1970. -/
  created : Double := ⟨0⟩
  origin : Origin := {}
  context : Option Value := none
  failure : Option (Option Cause) := none
  deriving Repr

namespace LogRecord

/-- The failure of a record as it is written below its message. The library's own failures are
named with the module they belong to. -/
def failureText : Option Cause → String
  | none => "NoneType: None"
  | some c =>
    let kind := (if c.isOwn then "fixtura.core.errors." else "") ++ c.kind
    match c.message? with
    | some "" | none => kind
    | some m => kind ++ ": " ++ m

/-- A text with the failure of a record below it. -/
def withFailure (r : LogRecord) (s : String) : String :=
  match r.failure with
  | some c => s ++ "\n" ++ failureText c
  | none => s

def moment (r : LogRecord) : Moment := Moment.ofSeconds r.created

def text (r : LogRecord) (w : World) : Except Cause String := w.messageText r.message r.values

/-- The last part of a logger's name. -/
def component (r : LogRecord) : String := (r.logger.splitOn ".").getLast?.getD ""

end LogRecord

/-- An entry of the library's own log as a record. -/
def LogEntry.record (e : LogEntry) (created : Moment) : LogRecord where
  logger := e.logger
  level := e.level
  message := .text e.message
  created := created.toSeconds

end TraitFactory
