import TraitFactory.Number.Arithmetic
import TraitFactory.Object.Elements
import TraitFactory.Object.Equality
import TraitFactory.Object.Interface.Plain

/-!
# Members

The named parts that a value has besides what was set on it, and those of them that it keeps as
such. The others it works out when they are asked for.
-/

namespace TraitFactory

namespace World

/-- Whether the named parts that a value keeps can be had as a dictionary. -/
def keepsParts (w : World) (v : Value) : Bool :=
  match v with
  | .function _ | .builder _ | .definition _ | .plan _ | .registry _ | .resolver _ | .runner _
  | .evaluator _ | .settings _ | .evaluation _ | .symbol _ _ | .textSymbol _ _ | .keyword _ => true
  | v =>
    match w.heap.object? v with
    | some (.attr _) | some (.declaration _) | some (.callback _) | some (.layer _)
    | some (.attributes _) | some (.snapshot _) => true
    | _ => false

end World

namespace Action

/-- The names that were set on a model, or on the one that it shares with others. -/
def sharedExtras (w : World) (m : Model) : List (String × Value) :=
  (w.extrasOf (.model m)).entries
    ++ if m.base.isSome then (w.extrasOf (.model m.owner)).entries else []

/-- The parts of an instance: its fields, then what its model gives to all instances. -/
def recordParts (w : World) (o : ObjectId) (m : Model) (fields : Table Value) : Parts :=
  let shared := sharedExtras w m ++ m.constants.map (fun c => (c.1, .text c.2))
    ++ m.blankFields.map (·, .null)
  fields.entries.map (fun f => Parts.given f.1 f.2)
    ++ (if m.settable.isSome then [] else [Parts.given "__dict__" (.fields o)])
    ++ [Parts.given "__class__" (.model m)] ++ shared.map fun f => Parts.given f.1 f.2

/-- The parts of a snapshot that are no keys. It cannot be gone through from its end, which the last
one says. -/
def snapshotParts (s : Snapshot) : Parts :=
  [Parts.given "_values" s.table, Parts.given "model" s.model, Parts.given "accessed" s.read]
    ++ (s.extras.entries.map fun f => Parts.given f.1 f.2) ++ [Parts.given "__reversed__" .null]

def objectParts (w : World) (o : ObjectId) : Object → Parts
  | .record m fields => recordParts w o m fields
  | .sealed _ _ fields => fields.entries.map fun f => Parts.given f.1 f.2
  | .snapshot s => snapshotParts s
  | .attributes _ => [Parts.given "_declarations" (.fields o)]
  | .layer l => Parts.given "label" (.text l.label) :: Parts.ofLayer (.object o) l
  | x => (Parts.ofObject? (.object o) x).getD []

/-! ### Enumerations -/

/-- The enumeration of a member, by its first member. -/
def enumerationOf (member : Value) : Value := .enumeration ((siblings member).headD member)

/-- The name of a member of an enumeration. -/
def memberName : Value → String
  | .keyword k => k.name
  | _ => "M"

/-- What a member of an enumeration stands for. -/
def memberValue : Value → Value
  | .keyword k => .text k.text
  | .textSymbol _ s => .text s
  | .symbol _ payload => payload
  | v => v

/-- What a member of an enumeration keeps. -/
def memberState (member : Value) : List (String × Value) :=
  [("_value_", memberValue member), ("_name_", .text (memberName member)),
    ("__objclass__", enumerationOf member),
    ("_sort_order_", .int ((siblings member).idxOf member))]

/-- The members of an enumeration by their names. -/
def memberTable (first : Value) : Action Value :=
  Action.once (.enumeration first) "_member_map_"
    (Parts.dict ((siblings first).map fun m => (.text (memberName m), m)))

/-- Tables of the members of an enumeration, which is known by its first member. -/
def memberTables (w : World) (first : Value) : Parts :=
  let family : Value := .enumeration first
  let members := siblings first
  let table := fun (entries : List (Value × Value)) => Parts.dict entries
  let keyed := members.filter fun m => w.isKey (memberValue m)
  let unkeyed := members.filter fun m => !w.isKey (memberValue m)
  let part := fun (name : String) (make : Action Value) => (name, Action.once family name make)
  [("_member_map_", memberTable first),
    part "_member_names_" (Parts.list (members.map fun m => .text (memberName m))),
    part "_value2member_map_" (table (keyed.map fun m => (memberValue m, m))),
    part "_unhashable_values_" (Parts.list (unkeyed.map memberValue)),
    Parts.given "_member_type_" (.type (if first.asText?.isSome then "str" else "object")),
    Parts.given "_use_args_" (.bool first.asText?.isSome)]

/-- The parts of a member: what it stands for, its own name, the other members, and what was set on
the enumeration. -/
def memberParts (w : World) (member : Value) : Parts :=
  [Parts.given "value" (memberValue member), Parts.given "name" (.text (memberName member))]
    ++ (memberState member).map (fun e => Parts.given e.1 e.2)
    ++ (siblings member).map (fun m => Parts.given (memberName m) m)
    ++ memberTables w ((siblings member).headD member)
    ++ (w.extrasOf (enumerationOf member)).entries.map fun f => Parts.given f.1 f.2

/-- The parts of an enumeration: its members by their names, and tables of them. -/
def enumerationParts (w : World) (member : Value) : Parts :=
  (siblings member).map (fun m => Parts.given (memberName m) m)
    ++ [Parts.given "__name__" (.text (World.familyName member)),
      Parts.given "__qualname__" (.text (World.familyName member)),
      ("__members__", do return .readOnly (← memberTable member))]
    ++ memberTables w member

/-! ### Types -/

/-- The types that a plain type stands under, itself first. -/
def ancestors (type : String) : List String :=
  match type with
  | "object" => ["object"]
  | "bool" => ["bool", "int", "object"]
  | type => [type, "object"]

/-- Plain types whose values can be no keys. -/
def unkeyedTypes : List String := ["list", "dict", "set", "dict_keys", "dict_items"]

/-- The parts of a type. Of those of the library only the name is told. -/
def typeParts (type : String) : Parts :=
  let types := fun (names : List String) => Parts.tuple (names.map .type)
  let above := (ancestors type).tail
  let told : Parts :=
    [Parts.given "__module__" (.text "builtins"),
      ("__mro__", Action.once (.type type) "__mro__" (types (ancestors type))),
      ("__bases__", Action.once (.type type) "__bases__" (types (above.take 1))),
      Parts.given "__base__" ((above.head?.map .type).getD .null)]
  [Parts.given "__name__" (.text type), Parts.given "__qualname__" (.text type)]
    ++ (if (Interface.ofPlainType? type).isSome then told else [])
    ++ if unkeyedTypes.contains type then [Parts.given "__hash__" .null] else []

/-- The parts of a method of a type. -/
def methodParts (type name : String) : Parts :=
  [Parts.given "__name__" (.text name), Parts.given "__qualname__" (.text (type ++ "." ++ name))]
    ++ if World.metaMethods.contains name || Interface.classMethods.contains (type, name) then
      [Parts.given "__self__" (.type type)]
    else [Parts.given "__objclass__" (.type type)]

/-- The parts of a number. -/
def numberParts (v : Value) : Parts :=
  match v, v.asInt? with
  | .float _ _, _ => [Parts.given "real" v, ("imag", Action.newFloat .zero)]
  | _, some n =>
    [Parts.given "real" (.int n), Parts.given "imag" (.int 0), Parts.given "numerator" (.int n),
      Parts.given "denominator" (.int 1)]
  | _, none => []

/-- The parts of a model itself, which can be read as a dictionary as well. -/
def modelParts (w : World) (m : Model) : Parts :=
  let own := (sharedExtras w m).map (fun f => Parts.given f.1 f.2) ++ Parts.ofModelItself m
  own ++ [("__dict__", do
    return .readOnly (← Parts.dict (← own.mapM fun p => return (.text p.1, ← p.2))))]

/-- What a view of a table shows. A plain dictionary can only be read there. -/
def tablePart (w : World) (table : Value) : String × Action Value :=
  if (w.entries? table).isSome then Parts.given "mapping" (.readOnly table)
  else Parts.given "_mapping" table

/-- The parts of a value that are the same whatever else it has. -/
def partsOf (v : Value) : Action Parts := do
  let w ← get
  match v with
  | .symbol _ _ | .textSymbol _ _ | .keyword _ => return memberParts w v
  | .model m => return modelParts w m
  | .type name => return typeParts name
  | .enumeration member => return enumerationParts w member
  | .function f => return ((w.function? f).map (Parts.ofFunction f)).getD []
  | .method _ (.type type) name => return methodParts type name
  | .method _ receiver name =>
    return [Parts.given "__name__" (.text name), Parts.given "__self__" receiver]
  | .object o => return ((w.heap.get? o).map (objectParts w o)).getD []
  | .builder b => return Parts.ofBuilder (← getBuilder b)
  | .definition d => return Parts.ofDefinition d (← getDefinition d)
  | .plan p => return Parts.ofPlan p (← getStored p)
  | .registry r => return Parts.ofRegistry r (← getRegistry r)
  | .resolver r => return Parts.ofResolver r (← getRegistry r)
  | .runner r => return Parts.ofRunner (← getRunner r)
  | .evaluator e => return Parts.ofEvaluator e (← getEvaluator e)
  | .settings s => return Parts.ofSettings (← getSettings s)
  | .evaluation e => return Parts.ofEvaluation e (← getEvaluation e)
  | .tableView _ _ table => return [tablePart w table]
  | v => return numberParts v

/-! ## What is kept -/

/-- The parts that are worked out from others. -/
def derivedParts : Value → List String
  | .definition _ => ["kind", "label", "build_class"]
  | .function _ => ["__name__", "__self__", "func", "args", "keywords"]
  | _ => ["label", "__reversed__"]

/-- The parts of its own that a value keeps. -/
def keptParts (v : Value) : Action (List (String × Value)) := do
  match v with
  | .symbol _ _ | .textSymbol _ _ | .keyword _ => return memberState v
  | v => ((← partsOf v).filter fun p => p.1 ∉ derivedParts v).mapM fun p => return (p.1, ← p.2)

/-- The names that were set on a value and are kept with its parts. -/
def keptExtras (w : World) (v : Value) : List (String × Value) :=
  (w.extrasOf v).entries.filter fun e => e.1 ≠ "__name__" && e.1 ≠ "__qualname__"

/-- **The parts that a value keeps**, as a dictionary by their names. -/
def keptDict (v : Value) : Action Value := do
  let own ← keptParts v
  let extras := keptExtras (← get) v
  Parts.dict ((own ++ extras).map fun e => (.text e.1, e.2))

/-! ## Plain forms -/

/-- How the parts of a value stand in its plain form: `none` for what is its own plain form. -/
def dumped? (dump : Value → Action Value) (w : World) (v : Value) : Option (Action Value) :=
  let named : Action Value := do
    Parts.dict (← (← keptParts v).mapM fun p => return (.text p.1, ← dump p.2))
  match v, w.entries? v, w.heap.object? v with
  | _, some entries, _ => some do
    Parts.dict (← entries.mapM fun e => return (← dump e.1, ← dump e.2))
  | _, none, some (.list items) => some do Parts.list (← items.mapM dump)
  | _, none, some (.tuple items) => some do Parts.tuple (← items.mapM dump)
  | _, none, some (.set members) => some do Action.alloc (.set (← members.mapM dump))
  | .plan _, _, _ | .settings _, _, _ | .definition _, _, _ => some named
  | _, none, some (.attr _) | _, none, some (.declaration _) | _, none, some (.callback _)
  | _, none, some (.layer _) => some named
  | _, _, _ => none

/-- The plain form of a value on a path of open ones; `depth` bounds the path. -/
def dumpOn : Nat → List Value → Value → Action Value
  | 0, _, _ => fail .tooDeep
  | depth + 1, path, v => do
    match dumped? (dumpOn depth (v :: path)) (← get) v with
    | none => return v
    | some plain =>
      if v ∈ path then fail (.badValue "Circular reference detected (id repeated)") else plain

/-- **The plain form of a value**: what has named parts as dictionaries of them, and containers as
new ones, all the way down. -/
def dump (v : Value) : Action Value := do
  dumpOn (2 * (← get).seeingDepth) [] v

end Action

end TraitFactory
