import TraitFactory.World

/-!
# Unfolding values

Turns a value of a world into a view. Each reference followed lengthens the path of open
things, and a thing on its own path is marked, so a view is never deeper than the world is
large. Answers show definitions and plans by their labels; texts show them with their parts.
-/

namespace TraitFactory

/-- The text that stands for an object met again inside itself. -/
def Object.cycleMark : Object → String
  | .list _ => "[...]"
  | .tuple _ => "(...)"
  | .dict _ => "\x7b...\x7d"
  | .record m _ => if m.openFields then "namespace(...)" else "<" ++ m.name ++ ">"
  | _ => "..."

/-- The fields of an instance that are shown: those that were set, in the order of the model's
settable names if it lists them. -/
def Object.shownFields (m : Model) (fields : Table Value) : List (String × Value) :=
  match m.settable with
  | some names => names.filterMap fun n => (fields.get? n).map (n, ·)
  | none => fields.entries

namespace World

/-- The name of a function, which may have been set. -/
def functionName (w : World) (f : FunctionId) : String :=
  match ((w.extrasOf (.function f)).get? "__name__").bind Value.asText?, w.function? f with
  | some name, _ => name
  | none, some f => f.shownName
  | none, none => "fn"

/-- The name of the enumeration that a value is a member of. -/
def familyName : Value → String
  | .keyword k => k.family
  | .textSymbol _ _ => "SRef"
  | _ => "Ref"

/-- The name a callable is shown under. -/
def callableName (w : World) : Value → String
  | .function f => w.functionName f
  | .model m => m.name
  | .type name => name
  | .enumeration member => familyName member
  | .method _ _ name => name
  | _ => "fn"

def labelOf (w : World) (d : DefinitionId) : String :=
  match w.definitions.get? d with
  | some d => d.label
  | none => ""

/-! ## Parts

What the parts of things are seen as, when `see` says how values are seen. -/

def seeOptional (see : Value → View) : Option Value → View
  | some v => see v
  | none => .null

def seeName : Option String → View
  | some s => .text s
  | none => .null

def seeAttribute (w : World) (see : Value → View) : AttributeValue → View
  | .fixed value shared => .fixed (see value) shared
  | .computed fn => .computed (w.callableName fn)
  | .association a =>
    .association a.factory a.traits (see a.overrides) a.strategy

def seeDeclaration (w : World) (see : Value → View) (d : Declaration) : View :=
  .structure "AttributeDeclaration" true
    [("name", .text d.name), ("value", w.seeAttribute see d.value), ("origin", .text d.origin)]

def seeCallback (see : Value → View) (c : Callback) : View :=
  .structure "Callback" true
    [("event", .keyword (.event c.event)), ("fn", see c.fn), ("owner", .text c.owner)]

def seeLayer (w : World) (see : Value → View) (l : Layer) : View :=
  .structure "Layer" true
    [("kind", .keyword (.layer l.kind)), ("name", .text l.name), ("scope", seeName l.scope),
      ("attributes", .tuple (l.attributes.map (w.seeDeclaration see))),
      ("constructor", seeOptional see l.constructor), ("persistor", seeOptional see l.persistor),
      ("callbacks", .tuple (l.callbacks.map (seeCallback see)))]

def seePlan (w : World) (see : Value → View) (p : Plan) : View :=
  .structure "CompiledPlan" true
    [("factory", .text p.factory), ("model", see p.model),
      ("traits", .tuple (p.traits.map .text)), ("layers", .tuple (p.layers.map (w.seeLayer see))),
      ("attributes", .tuple (p.attributes.map (w.seeDeclaration see))),
      ("constructor", seeOptional see p.constructor), ("persistor", seeOptional see p.persistor),
      ("callbacks", .tuple (p.callbacks.map (seeCallback see)))]

def seeNames (s : AttributeSet) : View := .made "AttributeSet" [.list (s.names.map .text)]

/-- A part is seen as what its owner keeps, or as what stands in its place. -/
def seeSlot {α : Type} (see : Value → View) (seeOwn : α → View) : Slot α → View
  | .own x => seeOwn x
  | .given v => see v

def seeCallbacks (see : Value → View) (cs : List Callback) : View :=
  .dict ((callbackTable cs).map fun e =>
    (View.keyword (.event e.1), View.list (e.2.map (seeCallback see))))

def seeTraits (see : Value → View) (t : Table DefinitionId) : View :=
  .dict (t.entries.map fun e => (.text e.1, see (.definition e.2)))

def seeDefinition (see : Value → View) (d : Definition) : View :=
  let parts :=
    [("name", see d.nameValue), ("attributes", seeSlot see seeNames d.attributes),
      ("applied_traits", seeSlot see (fun names => .list (names.map .text)) d.appliedTraits),
      ("constructor", seeOptional see d.constructor), ("persistor", seeOptional see d.persistor),
      ("callbacks", seeSlot see (seeCallbacks see) d.callbacks)]
  match d.template with
  | none => .structure "TraitDefinition" false parts
  | some t =>
    .structure "FactoryDefinition" false (parts ++
      [("parent", see t.parent), ("model", see t.model),
        ("traits", seeSlot see (seeTraits see) t.traits)])

def seeSettings (see : Value → View) (s : RunnerSettings) : View :=
  .structure "FixturaConfig" false
    [("stub_id_start", see s.stubIdStart), ("use_parent_strategy", see s.useParentStrategy),
      ("cache_plans", see s.cachePlans), ("log_level", see s.logLevel)]

/-- The name of the type of a view of a table. -/
def tableViewType (w : World) (aspect : TableAspect) (table : Value) : String :=
  match aspect, (w.entries? table).isSome with
  | .keys, true => "dict_keys"
  | .values, true => "dict_values"
  | .items, true => "dict_items"
  | .keys, false => "KeysView"
  | .values, false => "ValuesView"
  | .items, false => "ItemsView"

/-- What a value is seen as without being opened. -/
def seeHandle (w : World) : Value → View
  | .null => .null
  | .bool b => .bool b
  | .int n => .int n
  | .float _ x => .float x
  | .text s => .text s
  | .bytes bs => .bytes bs
  | .symbol _ _ => .symbol .null
  | .textSymbol _ s => .textSymbol s
  | .keyword k => .keyword k
  | .model m => .model m.name
  | .type name => .model name
  | .enumeration member => .enumeration (familyName member)
  | .function f => .function (w.functionName f)
  | .method _ _ name => .function name
  | .inner type _ _ => .other type
  | .builder b =>
    match w.built? b with
    | some d => .builder (w.labelOf d)
    | none => .other "builder"
  | .definition d => .definition (w.labelOf d)
  | .plan p =>
    match w.plan? p with
    | some plan => .plan plan.factory plan.traits
    | none => .other "CompiledPlan"
  | .settings _ => .other "FixturaConfig"
  | .registry _ => .other "Registry"
  | .resolver _ => .other "Resolver"
  | .runner _ => .other "FactoryRunner"
  | .evaluator _ => .other "Evaluator"
  | .context _ => .other "EvaluationContext"
  | .evaluation _ => .other "Evaluation"
  | .tableView _ aspect table => .other (w.tableViewType aspect table)
  | .object _ | .fields _ => .other "object"

/-- What an object is seen as. -/
def seeObject (w : World) (inside : Bool) (see : Value → View) : Object → View
  | .list items => .list (items.map see)
  | .tuple items => .tuple (items.map see)
  | .dict entries => .dict (entries.map fun e => (see e.1, see e.2))
  | .record m fields =>
    .record m.name ((Object.shownFields m fields).map fun f => (f.1, see f.2))
  | .sealed label _ _ => .sealed label
  | .set members => if inside then .set ((Value.inSetOrder members).map see) else .other "set"
  | .attributes s => if inside then seeNames s else .other "AttributeSet"
  | .attr a => w.seeAttribute see a
  | .declaration d => if inside then w.seeDeclaration see d else .other "AttributeDeclaration"
  | .callback c => if inside then seeCallback see c else .other "Callback"
  | .layer l => if inside then w.seeLayer see l else .other "Layer"
  | .snapshot _ => .other "AttributeSnapshot"
  | .iteration i => .other i.type

/-- What an aspect of a dictionary's entries is seen as. -/
def seeEntries (see : Value → View) (aspect : TableAspect) (entries : List (Value × Value)) :
    View :=
  .list (match aspect with
    | .keys => entries.map fun e => see e.1
    | .values => entries.map fun e => see e.2
    | .items => entries.map fun e => .tuple [see e.1, see e.2])

/-- What an opened value is seen as. -/
def seeInside (w : World) (see : Value → View) (inside : Bool) (v : Value) : View :=
  let shown : Option View := match v with
    | .object o => (w.heap.get? o).map (w.seeObject inside see)
    | .fields _ => (w.entries? v).map fun es => .dict (es.map fun e => (see e.1, see e.2))
    | .definition d => (w.definitions.get? d).map (seeDefinition see)
    | .plan p => (w.plan? p).map (w.seePlan see)
    | .settings s => (w.settingsAt? s).map (seeSettings see)
    | .inner type table _ => (w.entries? table).map fun _ => .made type [see table]
    | .tableView _ aspect table =>
      some (.made (w.tableViewType aspect table)
        [((w.entries? table).map (seeEntries see aspect)).getD (see table)])
    | _ => none
  shown.getD (w.seeHandle v)

/-- The text that stands for something met again inside itself. -/
def cycleMark (w : World) : Value → String
  | .object o => ((w.heap.get? o).map Object.cycleMark).getD "..."
  | .fields _ => "\x7b...\x7d"
  | _ => "..."

/-- Whether a value is opened when it is seen: objects always are, and of things with parts those
that are seen with them. -/
def opens (inside : Bool) : Value → Bool
  | .object _ | .fields _ => true
  | .definition _ | .plan _ | .settings _ | .tableView _ _ _ | .inner "mappingproxy" _ _ => inside
  | _ => false

/-- A symbol is seen as what it stands for, and so on. -/
def seeSymbol (see : Value → View) : Value → View
  | .symbol _ payload => .symbol (seeSymbol see payload)
  | v => see v

/-- Unfolds along a path of open things; `depth` is how many may still be opened. -/
def unfold (w : World) (inside : Bool) : Nat → List Value → Value → View
  | 0, _ => seeSymbol w.seeHandle
  | depth + 1, path => seeSymbol fun v =>
    if !opens inside v then w.seeHandle v
    else
      match path.idxOf? v with
      | some i => .cycle (i + 1) (w.cycleMark v)
      | none => w.seeInside (w.unfold inside depth (v :: path)) inside v

/-- No path opens a thing twice. -/
def seeingDepth (w : World) : Nat :=
  2 * w.heap.size + w.definitions.size + w.plans.size + w.settings.size + 2

/-- **A value as a finite tree**, as answers show it. -/
def view (w : World) (v : Value) : View := w.unfold false w.seeingDepth [] v

/-- A value as a finite tree with the parts of everything in it, as its text shows it. -/
def fullView (w : World) (v : Value) : View := w.unfold true w.seeingDepth [] v

/-- An attribute value as a tree. -/
def attributeView (w : World) (a : AttributeValue) : View := w.seeAttribute w.view a

/-- The text of a value in some form, unless a number in it is too long to be written. -/
def written (w : World) (v : Value) (text : View → String) : Except Cause String :=
  let view := w.fullView v
  if view.isWritable then .ok (text view) else .error .unwritable

/-- The text of a value inside other values and in messages. -/
def quoted (w : World) (v : Value) : String := (w.fullView v).quoted

/-- The text of a value on its own. -/
def plainText (w : World) (v : Value) : String := (w.fullView v.behind).plainText

/-- **The text that a value is taken for** where a text must be: itself, the text of its bytes, or
that of what it stands for. -/
def takenText (w : World) : Value → Except Cause String
  | .bytes bs => (Text.ofBytes? bs).elim (.error .invalidDeclaration) .ok
  | .symbol _ payload => w.written payload View.plainText
  | v => v.asText?.elim (.error .invalidDeclaration) .ok

/-- Whether a definition is a factory. -/
def isFactory (w : World) (d : DefinitionId) : Bool := (w.definitions.template? d).isSome

def functionType (w : World) (f : FunctionId) : String :=
  match w.function? f with
  | none => "function"
  | some f =>
    match f.binding with
    | .free => "function"
    | .leading _ => "partial"
    | .receiver => "method"

/-- The name of an object's type. -/
def objectType : Object → String
  | .list _ => "list"
  | .tuple _ => "tuple"
  | .dict _ => "dict"
  | .record m _ => m.name
  | .sealed _ copyable _ => if copyable then "Opaque" else "NoCopy"
  | .attr (.fixed _ _) => "Fixed"
  | .attr (.computed _) => "Computed"
  | .attr (.association _) => "Association"
  | .declaration _ => "AttributeDeclaration"
  | .callback _ => "Callback"
  | .layer _ => "Layer"
  | .snapshot _ => "AttributeSnapshot"
  | .iteration i => i.type
  | .set _ => "set"
  | .attributes _ => "AttributeSet"

/-- Whether a value is of one of the kinds that every program has: a number, a text or a
container. The methods of these are not like those of other things. -/
def isPlain (w : World) (v : Value) : Bool :=
  match v with
  | .null | .bool _ | .int _ | .float _ _ | .text _ | .bytes _ | .fields _ => true
  | .textSymbol _ _ | .keyword _ => true
  | .tableView _ _ table => (w.entries? table).isSome
  | v =>
    match w.heap.object? v with
    | some (.list _) | some (.tuple _) | some (.dict _) | some (.set _) | some (.iteration _) =>
      true
    | _ => false

/-- Whether a method of a plain value only stands for an operation on it. -/
def standsForOperation (type name : String) : Bool :=
  let direct := ["__reversed__", "__round__", "__trunc__", "__floor__", "__ceil__",
    "__getnewargs__", "__format__", "__length_hint__", "__bytes__", "__instancecheck__",
    "__subclasscheck__"]
  let kept := match type with
    | "list" => ["__getitem__"]
    | "dict" => ["__getitem__", "__contains__"]
    | "set" => ["__contains__"]
    | _ => []
  name.startsWith "__" && !direct.contains name && !kept.contains name

/-- The methods that every type has and its values have not. -/
def metaMethods : List String := ["mro", "__call__", "__instancecheck__", "__subclasscheck__"]

/-- The type of a method of a type. -/
def typeMethodType (type name : String) : String :=
  let isOperation := standsForOperation type name
  if metaMethods.contains name then
    if isOperation then "method-wrapper" else "builtin_function_or_method"
  else if isOperation then "wrapper_descriptor"
  else if ["fromkeys", "from_bytes", "fromhex", "maketrans"].contains name then
    "builtin_function_or_method"
  else "method_descriptor"

/-- The type of a type: some kinds of types have one of their own. -/
def typeOfType (name : String) : String :=
  let checked := ["Fixed", "Computed", "Association", "AttributeDeclaration", "Callback", "Layer",
    "CompiledPlan"]
  let described := ["AttributeSnapshot", "KeysView", "ValuesView", "ItemsView"]
  if checked.contains name then "ModelMetaclass"
  else if described.contains name then "ABCMeta"
  else "type"

/-- The name of a value's type. -/
def typeName (w : World) : Value → String
  | .null => "NoneType"
  | .bool _ => "bool"
  | .int _ => "int"
  | .float _ _ => "float"
  | .text _ => "str"
  | .bytes _ => "bytes"
  | .symbol serial payload => familyName (.symbol serial payload)
  | .textSymbol serial s => familyName (.textSymbol serial s)
  | .keyword k => familyName (.keyword k)
  | .model _ => "type"
  | .type name => typeOfType name
  | .enumeration _ => "EnumType"
  | .function f => w.functionType f
  | .method _ (.model _) _ => "function"
  | .method _ (.type type) name => typeMethodType type name
  | .method _ receiver name =>
    if !w.isPlain receiver then "method"
    else if standsForOperation (w.typeName receiver) name then "method-wrapper"
    else "builtin_function_or_method"
  | .inner type _ _ => type
  | .builder b => if w.buildsFactory b then "FactoryBuilder" else "TraitBuilder"
  | .definition d => if w.isFactory d then "FactoryDefinition" else "TraitDefinition"
  | .plan _ => "CompiledPlan"
  | .registry _ => "Registry"
  | .resolver _ => "Resolver"
  | .runner _ => "FactoryRunner"
  | .evaluator _ => "Evaluator"
  | .context _ => "EvaluationContext"
  | .evaluation _ => "Evaluation"
  | .settings _ => "FixturaConfig"
  | .fields _ => "dict"
  | .tableView _ aspect table => w.tableViewType aspect table
  | .object o => ((w.heap.get? o).map objectType).getD "object"

/-- The type of a value: for an instance its model, for a member its enumeration. -/
def typeOf (w : World) (v : Value) : Value :=
  match v, w.heap.object? v with
  | _, some (.record m _) => .model m
  | .symbol _ _, _ | .textSymbol _ _, _ => .enumeration v
  | .keyword k, _ => .enumeration (.keyword (k.siblings.headD k))
  | _, _ => .type (w.typeName v)

end World

namespace Action

/-- The text of a value in some form. -/
def written (v : Value) (text : View → String) : Action String := do
  match (← get).written v text with
  | .ok s => return s
  | .error cause => fail cause

def quoted (v : Value) : Action String := written v View.quoted

def plainText (v : Value) : Action String := written v.behind View.plainText

/-- Records an announcement as it looks now. -/
def announce (parts : List View) : Action Unit :=
  modify fun w => { w with trace := w.trace.push (.list parts) }

end Action

end TraitFactory
