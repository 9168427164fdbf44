import TraitFactory.Evaluation
import TraitFactory.Object.Interface
import TraitFactory.Object.Members

/-!
# Fields

Reading and setting the named parts of a value. What was set on a value comes before its own
parts, and these before its methods. On a context every name that is not its own is the name of
an attribute of the evaluation.
-/

namespace TraitFactory

/-- Whether instances take an assignment to a name. -/
def Model.takes (m : Model) (name : String) : Bool :=
  (m.settable.all (·.contains name)) && (m.constants.lookup name).isNone

/-- The names that every instance has besides its fields: its model, and the fields themselves
unless the model lists the settable ones. -/
def Model.reserved (m : Model) : List String :=
  if m.settable.isSome then ["__class__"]
  else if m.openFields then ["__class__", "__dict__"]
  else ["__class__", "__dict__", "__weakref__"]

/-- Whether an instance of one model can be turned into one of another. -/
def Model.turnsInto (m n : Model) : Bool :=
  !m.openFields && !n.openFields && (m = n || (m.settable.isNone && n.settable.isNone))

namespace Action

/-! ## Reading -/

/-- The names of a context that are not attributes of the evaluation. -/
def contextParts (e : Evaluation) (id : EvaluationId) : Parts :=
  let own := e.extras.entries ++ [("_evaluation", .evaluation id)]
  own.map (fun f => Parts.given f.1 f.2)
    ++ (Interface.ofContext ++ Interface.ofAnything).map (fun m =>
      (m.1, newMethod (.context id) m.1))
    ++ [("__dict__", do
        Parts.dict ((.text "_evaluation", .evaluation id)
          :: e.extras.entries.map fun f => (.text f.1, f.2))),
      ("__class__", do return (← get).typeOf (.context id))]

/-- The evaluation that a context reads from: its own, unless another was put in its place. -/
def evaluationOf (id : EvaluationId) : Action EvaluationId := do
  match (← getEvaluation id).extras.get? "_evaluation" with
  | none => return id
  | some (.evaluation other) => return other
  | some _ => noAttribute

/-- Reads an attribute by name. Names with two leading underscores are never attributes. -/
def contextAttribute (host : Host) (id : EvaluationId) (name : String) : Action Value := do
  if name.startsWith "__" then fail (.noAttribute (some name))
  else read host (← evaluationOf id) name

/-- Reads a name through a context, whose own names come first. -/
def contextField (host : Host) (id : EvaluationId) (name : String) : Action Value := do
  match (contextParts (← getEvaluation id) id).lookup name with
  | some part => part
  | none => contextAttribute host id name

/-- The named part of a value that is no context. What has no hash has nothing in its place. -/
def plainField (v : Value) (name : String) : Action Value := do
  match ((← get).extrasOf v).get? name, (← partsOf v).lookup name with
  | some x, _ => return x
  | none, some part => part
  | none, none =>
    let w ← get
    if name = "__hash__" && !w.hasHash v then return .null
    else if (w.method? v name).isSome then newMethod v name
    else if name = "__class__" then return w.typeOf v
    else if name = "__dict__" && w.keepsParts v then keptDict v
    else noAttribute

/-- **Reads a named part of a value.** The name of a builder is that of its definition. -/
def getAttr (host : Host) (v : Value) (name : String) : Action Value := do
  match v with
  | .context id => contextField host id name
  | .builder b =>
    if name = "name" then plainField (← getBuilder b).definition name else plainField v name
  | _ => plainField v name

/-! ## Setting -/

/-- Puts entries into a dictionary in the place of those that it has. Fields of an instance have
texts for names. -/
def setEntries (v : Value) (entries : List (Value × Value)) : Action Unit := do
  let w ← get
  match v with
  | .object o => set (w.setObject o (.dict entries))
  | .fields o =>
    match w.heap.get? o, entries.mapM fun e => e.1.asText?.map (·, e.2) with
    | some (.record m _), some fields => set (w.setObject o (.record m ⟨fields⟩))
    | some (.attributes _), some fields =>
      match fields.mapM fun f => (w.heap.declaration? f.2).map (f.1, ·) with
      | some declarations => set (w.setObject o (.attributes ⟨⟨declarations⟩⟩))
      | none => wrongType
    | _, _ => wrongType
  | _ => wrongType

def setExtra (v : Value) (name : String) (x : Value) : Action Unit :=
  modify fun w => w.setExtra v name x

/-- The fields that a dictionary of texts stands for. -/
def fieldsOf (v : Value) : Action (Table Value) := do
  match (← get).entries? v with
  | some entries =>
    match entries.mapM fun e => e.1.asText?.map (·, e.2) with
    | some fields => return ⟨fields⟩
    | none => wrongType
  | none => wrongType

/-- Sets a name that every instance has. -/
def setReserved (o : ObjectId) (m : Model) (fields : Table Value) (name : String) (x : Value) :
    Action Unit := do
  match name, x with
  | "__class__", .model n =>
    if m.turnsInto n then modify fun w => w.setObject o (.record n fields) else wrongType
  | "__class__", _ => wrongType
  | "__dict__", _ =>
    let fields ← fieldsOf x
    modify fun w => w.setObject o (.record m fields)
  | _, _ => noAttribute

/-- Sets a field of an instance. What an announcing model is given is announced first. -/
def setField (o : ObjectId) (m : Model) (fields : Table Value) (name : String) (x : Value) :
    Action Unit := do
  if m.announces then announce [.text "set", .text name, (← get).view x]
  if m.reserved.contains name then setReserved o m fields name x
  else if m.takes name then
    modify fun w => w.setObject o (.record m (fields.insert name x))
  else noAttribute

/-- What may not change takes only names that begin with an underscore. -/
def setOnFrozen (v : Value) (name : String) (x : Value) : Action Unit :=
  if name.startsWith "_" then setExtra v name x else fail .invalidDeclaration

/-- Sets a part of a set of attributes: the table of its declarations. -/
def setOnAttributes (o : ObjectId) (name : String) (x : Value) : Action Unit := do
  match name, (← get).entries? x with
  | "_declarations", some entries => setEntries (.fields o) entries
  | _, _ => setExtra (.object o) name x

def setOnObject (o : ObjectId) (name : String) (x : Value) : Object → Action Unit
  | .record m fields => setField o m fields name x
  | .sealed label copyable fields =>
    if name = "__dict__" then wrongType
    else if name = "__weakref__" then noAttribute
    else modify fun w => w.setObject o (.sealed label copyable (fields.insert name x))
  | .snapshot s =>
    let s := match name with
      | "_values" => { s with table := x }
      | "accessed" => { s with read := x }
      | "model" => { s with model := x }
      | _ => { s with extras := s.extras.insert name x }
    modify fun w => w.setObject o (.snapshot s)
  | .attributes _ => setOnAttributes o name x
  | .attr _ | .declaration _ | .callback _ | .layer _ => setOnFrozen (.object o) name x
  | _ => noAttribute

/-- The name that a definition is given, and what it was given if that is no plain text. -/
def givenName (v : Value) : Action (String × Option Value) := do
  match v with
  | .text s => return (s, none)
  | v => return (← plainText v, some v)

/-- Sets a part that only a factory has. -/
def setOnTemplate (d : DefinitionId) (name : String) (x : Value) : Action Unit :=
  let change := fun f => Parts.modifyDefinition d fun definition => definition.modifyTemplate f
  match name with
  | "build_class" => noAttribute
  | "parent" => change fun t => { t with parent := x }
  | "model" => change fun t => { t with model := x }
  | "traits" => change fun t => { t with traits := .given x }
  | _ => setExtra (.definition d) name x

/-- Sets a part of a definition. -/
def setOnDefinition (d : DefinitionId) (name : String) (x : Value) : Action Unit := do
  let change := Parts.modifyDefinition d
  match name with
  | "label" => noAttribute
  | "attributes" => change fun definition => { definition with attributes := .given x }
  | "applied_traits" => change fun definition => { definition with appliedTraits := .given x }
  | "constructor" => change fun definition => { definition with constructor := x.hook? }
  | "persistor" => change fun definition => { definition with persistor := x.hook? }
  | "callbacks" => change fun definition => { definition with callbacks := .given x }
  | "name" =>
    let (name, given) ← givenName x
    change fun definition => { definition with name := name, given := given }
  | "kind" =>
    let kind ← plainText x
    change fun definition => { definition with setKind := some kind }
    setExtra (.definition d) name x
  | _ =>
    if (← getDefinition d).isFactory then setOnTemplate d name x
    else setExtra (.definition d) name x

/-- Sets a part of a registry. -/
def setOnRegistry (r : RegistryId) (name : String) (x : Value) : Action Unit :=
  let change := Parts.modifyRegistry r
  match name, x with
  | "factories", _ => change fun reg => { reg with factories := .given x }
  | "traits", _ => change fun reg => { reg with traits := .given x }
  | "generation", .int n => change fun reg => { reg with generation := n }
  | "resolver", _ => change fun reg => { reg with resolver := some x }
  | _, _ => setExtra (.registry r) name x

/-- Sets a part of what compiles for a registry. -/
def setOnResolver (r : RegistryId) (name : String) (x : Value) : Action Unit := do
  let w ← get
  let change := Parts.modifyCache r
  match name, x with
  | "cache_enabled", _ => change fun c => { c with enabled := w.isTrue x, flag := x }
  | "_generation", .int n => change fun c => { c with generation := n }
  | "_plans", .object o => change fun c => { c with handedPlans := some o }
  | "_static", .object o => change fun c => { c with handedLayers := some o }
  | "registry", _ => change fun c => { c with registry := some x }
  | _, _ => setExtra (.resolver r) name x

/-- Sets a part of an evaluation. -/
def setOnEvaluation (e : EvaluationId) (name : String) (x : Value) : Action Unit :=
  match name with
  | "strategy" => modifyEvaluation e fun e => { e with strategy := x }
  | "_associate" => modifyEvaluation e fun e => { e with associate := x }
  | "_use_parent_strategy" => modifyEvaluation e fun e => { e with useParentStrategy := x }
  | "_values" => modifyEvaluation e fun e => { e with values := .given x }
  | "_active" => modifyEvaluation e fun e => { e with active := .given x }
  | "declarations" => modifyEvaluation e fun e => { e with declarations := some x }
  | _ => setExtra (.evaluation e) name x

def setOnBuilder (b : BuilderId) (name : String) (x : Value) : Action Unit :=
  let change := fun f => modify fun w => w.modifyBuilder b f
  match name with
  | "name" => noAttribute
  | "definition" => change fun builder => { builder with definition := x }
  | "registry" => change fun builder => { builder with registry := x }
  | _ => setExtra (.builder b) name x

def setOnRunner (r : RunnerId) (name : String) (x : Value) : Action Unit :=
  let change := fun f => modify fun w => w.modifyRunner r f
  match name with
  | "registry" => change fun runner => { runner with registry := x }
  | "config" => change fun runner => { runner with settings := x }
  | "evaluator" => change fun runner => { runner with evaluator := x }
  | _ => setExtra (.runner r) name x

def setOnEvaluator (e : EvaluatorId) (name : String) (x : Value) : Action Unit :=
  let change := fun f => modify fun w => w.modifyEvaluator e f
  match name with
  | "config" => change fun evaluator => { evaluator with settings := x }
  | "associate" => change fun evaluator => { evaluator with associate := x }
  | _ => setExtra (.evaluator e) name x

/-- Sets one of some settings. -/
def setSetting (s : SettingsId) (name : String) (x : Value) : Action Unit :=
  let change := fun f => modify fun w => w.modifySettings s f
  match name with
  | "stub_id_start" => change fun s => { s with stubIdStart := x }
  | "use_parent_strategy" => change fun s => { s with useParentStrategy := x }
  | "cache_plans" => change fun s => { s with cachePlans := x }
  | "log_level" => change fun s => { s with logLevel := x }
  | _ => setExtra (.settings s) name x

/-- Sets a name on a function or a class, of which some take none. -/
def setOnCallable (v : Value) (name : String) (x : Value) : Action Unit := do
  match v with
  | .function f =>
    let binding := (((← get).function? f).map (·.binding)).getD .free
    let isName := name = "__name__" || name = "__qualname__"
    if binding = .receiver then noAttribute
    else if binding = .free && isName && x.asText?.isNone then wrongType
    else setExtra v name x
  | .model m => if m.openFields then wrongType else setExtra v name x
  | _ => noAttribute

/-- Sets a part that is neither a value's class nor the table of its parts. -/
def setPart (v : Value) (name : String) (x : Value) : Action Unit := do
  match v with
  | .type _ => wrongType
  | .context id => modifyEvaluation id fun e => { e with extras := e.extras.insert name x }
  | .object o =>
    match (← get).heap.get? o with
    | some object => setOnObject o name x object
    | none => noAttribute
  | .symbol _ _ | .textSymbol _ _ | .keyword _ =>
    if name = "name" || name = "value" then noAttribute else setExtra v name x
  | .enumeration member =>
    if (siblings member).any (memberName · = name) then noAttribute else setExtra v name x
  | .function _ | .model _ => setOnCallable v name x
  | .builder b => setOnBuilder b name x
  | .definition d => setOnDefinition d name x
  | .plan _ => setOnFrozen v name x
  | .settings s => setSetting s name x
  | .registry r => setOnRegistry r name x
  | .resolver r => setOnResolver r name x
  | .runner r => setOnRunner r name x
  | .evaluator e => setOnEvaluator e name x
  | .evaluation e => setOnEvaluation e name x
  | _ => noAttribute

/-- **Sets a named part of a value.** Only an instance of a model can change its class, and the
table of a value's parts must be a dictionary. -/
def setAttr (v : Value) (name : String) (x : Value) : Action Unit := do
  let w ← get
  match name, w.heap.object? v with
  | "__class__", some (.record _ _) => setPart v name x
  | "__class__", _ => if w.keepsParts v && x = w.typeOf v then return () else wrongType
  | "__dict__", _ =>
    if w.keepsParts v && (w.entries? x).isNone then wrongType else setPart v name x
  | _, _ => setPart v name x

/-- **Takes away a named part of a value**, which must have been set on it. -/
def deleteAttr (v : Value) (name : String) : Action Unit := do
  let w ← get
  match v, w.heap.object? v with
  | .object o, some (.record m fields) =>
    if (fields.get? name).isNone then noAttribute
    modify fun w => w.setObject o (.record m (fields.erase name))
  | .object o, some (.sealed label copyable fields) =>
    if (fields.get? name).isNone then noAttribute
    modify fun w => w.setObject o (.sealed label copyable (fields.erase name))
  | _, some (.attr _) | _, some (.declaration _) | _, some (.callback _) | _, some (.layer _)
  | .plan _, _ => fail .invalidDeclaration
  | v, _ =>
    if ((w.extrasOf v).get? name).isNone then noAttribute
    modify fun w => w.eraseExtra v name

/-! ## Reading what may be absent -/

/-- A named part, or the default where it is absent. Other failures are passed on. -/
def getAttrOr (host : Host) (v : Value) (name : String) (default : Value) : Action Value :=
  tryCatch (getAttr host v name) fun e =>
    if e.cause.lacksAttribute then return default else throw e

/-- Whether a value has a named part. -/
def hasAttr (host : Host) (v : Value) (name : String) : Action Bool := do
  match ← attempt (getAttr host v name) with
  | .ok _ => return true
  | .error e => if e.cause.lacksAttribute then return false else throw e

end Action

end TraitFactory
