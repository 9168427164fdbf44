/-!
# Log levels

A level is a number; five of them, and the lowest, have names. Some names are synonyms.
-/

namespace TraitFactory

structure LogLevel where
  severity : Int
  deriving DecidableEq, Repr

namespace LogLevel

def notset : LogLevel := ⟨0⟩
def debug : LogLevel := ⟨10⟩
def info : LogLevel := ⟨20⟩
def warning : LogLevel := ⟨30⟩
def error : LogLevel := ⟨40⟩
def critical : LogLevel := ⟨50⟩

def named : List (LogLevel × String) :=
  [(critical, "CRITICAL"), (error, "ERROR"), (warning, "WARNING"), (info, "INFO"),
    (debug, "DEBUG"), (notset, "NOTSET")]

/-- A level without a name of its own is shown by its number. -/
def name (l : LogLevel) : String :=
  (named.lookup l).getD ("Level " ++ toString l.severity)

/-- The levels that a name stands for, synonyms included. -/
def byName : List (String × LogLevel) :=
  named.map (fun p => (p.2, p.1)) ++ [("FATAL", critical), ("WARN", warning)]

def ofName? (s : String) : Option LogLevel := byName.lookup s

/-- Whether an entry of level `l` passes the threshold `t`. -/
def passes (l t : LogLevel) : Bool := t.severity ≤ l.severity

/-- Whether entries of a level are written at all, whatever the threshold. -/
def isWritten (l : LogLevel) : Bool := 0 < l.severity

end LogLevel

/-- **One entry of the library's log**, before it is formatted. -/
structure LogEntry where
  level : LogLevel
  logger : String
  message : String
  deriving DecidableEq, Repr

namespace LogEntry

def text (e : LogEntry) : String := e.level.name ++ " " ++ e.logger ++ " " ++ e.message

end LogEntry

end TraitFactory
