import TraitFactory.Json.Writing
import TraitFactory.World.Unfold

/-!
# Values and JSON

Values written as JSON and JSON read as values. What JSON has no form for is written as its
text; a dictionary's keys become texts, and only plain ones can.
-/

namespace TraitFactory

namespace World

def intText (n : Int) : Except Cause String :=
  if Number.isWritable n then .ok (toString n) else .error .unwritable

/-- The text that stands for a key. -/
def keyText : Value → Except Cause String
  | .null => .ok "null"
  | .bool b => .ok (if b then "true" else "false")
  | .int n => intText n
  | .float _ x => .ok (Json.floatLiteral x)
  | v =>
    match v.asText? with
    | some s => .ok s
    | none => .error (.wrongType none)

/-- Writes a value along a path of open containers; `depth` is how many may still be opened. -/
def writeJson (w : World) (depth : Nat) (path : List ObjectId) (v : Value) :
    Except Cause Json :=
  match v, v.asText? with
  | _, some s => .ok (.text s)
  | .null, _ => .ok .null
  | .bool b, _ => .ok (.bool b)
  | .int n, _ => if Number.isWritable n then .ok (.int n) else .error .unwritable
  | .float _ x, _ => .ok (.float x)
  | .object o, _ =>
    let circular := Cause.badValue "Circular reference detected"
    match depth, w.heap.get? o with
    | depth + 1, some (.list items) | depth + 1, some (.tuple items) =>
      if path.contains o then .error circular
      else .list <$> items.mapM fun v => w.writeJson depth (o :: path) v
    | depth + 1, some (.dict entries) =>
      if path.contains o then .error circular
      else .object <$> entries.mapM fun e => do
        return (← keyText e.1, ← w.writeJson depth (o :: path) e.2)
    | _, _ => .text <$> w.written v View.plainText
  | v, none => .text <$> w.written v View.plainText

/-- **A value as JSON.** -/
def toJson (w : World) (v : Value) : Except Cause Json := w.writeJson (w.heap.size + 1) [] v

end World

namespace Action

mutual

/-- **The value of JSON**, its lists and objects made anew. -/
def ofJson : Json → Action Value
  | .null => return .null
  | .bool b => return .bool b
  | .int n => return .int n
  | .float x => if x.isNaN then return .float 0 x else newFloat x
  | .text s => return .text s
  | .list items => do alloc (.list (← ofJsonItems items))
  | .object entries => do alloc (.dict (← ofJsonEntries entries))

def ofJsonItems : List Json → Action (List Value)
  | [] => return []
  | j :: js => do return (← ofJson j) :: (← ofJsonItems js)

def ofJsonEntries : List (String × Json) → Action (List (Value × Value))
  | [] => return []
  | (key, j) :: es => do return (.text key, ← ofJson j) :: (← ofJsonEntries es)

end

end Action

end TraitFactory
