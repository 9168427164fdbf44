import TraitFactory.Log.Record

/-!
# Console lines

Records in a short form for people: the time, the component and, for all but plain information,
the level before the message. On a terminal the time is dimmed and the levels have colours.
-/

namespace TraitFactory

/-- How text is set off on a terminal; not at all without colours. -/
structure Palette where
  reset : String
  dim : String
  ofLevel : LogLevel → String

namespace Palette

def escape (code : String) : String := "\x1b[" ++ code ++ "m"

/-- The colours of levels; a level without a name of its own has none. -/
def levelCodes : List (LogLevel × String) :=
  [(.debug, "36"), (.info, "32"), (.warning, "33"), (.error, "31"), (.critical, "35")]

def plain : Palette := ⟨"", "", fun _ => ""⟩

def colored : Palette :=
  ⟨escape "0", escape "2", fun l => ((levelCodes.lookup l).map escape).getD ""⟩

end Palette

namespace LogRecord

/-- The time: between brackets, or dimmed. -/
def timeMark (r : LogRecord) (p : Option Palette) : String :=
  match p with
  | none => "[" ++ r.moment.timeText ++ "]"
  | some p => p.dim ++ r.moment.timeText ++ p.reset

def levelMark (r : LogRecord) (p : Option Palette) : String :=
  if r.level = .info then ""
  else
    match p with
    | none => " " ++ r.level.name ++ ":"
    | some p => " " ++ p.ofLevel r.level ++ r.level.name ++ p.reset ++ ":"

/-- **A record for the console**, in colours if a palette is given. The time is local time. -/
def consoleText (r : LogRecord) (w : World) (p : Option Palette) : Except Cause String := do
  r.moment.requireLocalDate
  let message ← r.text w
  return r.withFailure
    (r.timeMark p ++ " [" ++ r.component ++ "]" ++ r.levelMark p ++ " " ++ message)

end LogRecord

end TraitFactory
