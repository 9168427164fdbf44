import TraitFactory.Json.Values
import TraitFactory.Log.Record
import TraitFactory.Object.Elements

/-!
# JSON lines

Records as lines of JSON, one object each, for other programs to read. Warnings and what is
above them tell where they come from.
-/

namespace TraitFactory

namespace LogRecord

/-- What is known of a record's origin. The body of a module is no function. -/
def originEntries (o : Origin) : List (String × Json) :=
  (if o.file.isEmpty then [] else [("file", Json.text o.file)])
    ++ (if o.line = 0 then [] else [("line", Json.int o.line)])
    ++ match o.function with
      | some f => if f.isEmpty || f = "<module>" then [] else [("function", Json.text f)]
      | none => []

def sourceEntries (r : LogRecord) : List (String × Json) :=
  match originEntries r.origin with
  | [] => []
  | entries => if r.level.passes .warning then [("source", .object entries)] else []

def failureEntries (r : LogRecord) : List (String × Json) :=
  match r.failure with
  | some (some c) =>
    [("exception", .object [("type", .text c.kind), ("message", .text (c.message?.getD ""))])]
  | _ => []

/-- A context that holds nothing is left out. -/
def contextEntries (r : LogRecord) (w : World) : Except Cause (List (String × Json)) :=
  match r.context with
  | some v =>
    if w.isTrue v then do return [("context", ← w.toJson v)] else .ok []
  | none => .ok []

/-- **A record as one JSON object.** -/
def json (r : LogRecord) (w : World) : Except Cause Json := do
  r.moment.requireDate
  let message ← r.text w
  let entries := [("timestamp", Json.text r.moment.text), ("level", .text r.level.name),
    ("logger", .text r.logger), ("message", .text message)]
  return .object (entries ++ (← r.contextEntries w) ++ r.sourceEntries ++ r.failureEntries)

def jsonLine (r : LogRecord) (w : World) : Except Cause String := do
  return (← r.json w).oneLine

end LogRecord

end TraitFactory
