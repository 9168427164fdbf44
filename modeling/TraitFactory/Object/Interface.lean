import TraitFactory.Object.Interface.Plain
import TraitFactory.World.Unfold

/-!
# Interfaces

The methods that values have, with the parameters of each. A method of a model takes the
instance itself besides.
-/

namespace TraitFactory

namespace Interface

/-! ## Objects of the library -/

/-- Methods of things with parts that may not change. Those that copy and that give the plain form
have two names each. -/
def ofFrozen : Interface := plain ["model_copy", "copy", "model_dump", "dict"] ++ ofIterable

def ofSnapshot : Interface := ("new", [.variadic, .keywords]) :: (ofTable ++ ofIndexed)

/-- What enumerations have. -/
def ofEnumeration : Interface :=
  ofIndexed ++ plain ["__reversed__"] ++ unaryOption ["__call__"]

def ofAttributes : Interface :=
  plain ["names", "declarations"] ++ unary ["get", "merge_over"]
    ++ [("declare", [.positional, .positional, .defaulted])] ++ ofSized ++ ofIterable

def ofObject : Object → Interface
  | .record m _ => plain (m.methods.map (·.1))
  | .snapshot _ => ofSnapshot
  | .attributes _ => ofAttributes
  | .attr (.computed _) => unary ["evaluate"] ++ ofFrozen
  | .callback _ => binary ["invoke"] ++ ofFrozen
  | .attr _ | .declaration _ | .layer _ => ofFrozen
  | x => (ofPlainType? (World.objectType x)).getD []

def ofPlan : Interface :=
  plain ["attribute_names"] ++ unary ["declaration", "callbacks_for"] ++ ofFrozen

def ofDefinition (isFactory : Bool) : Interface :=
  plain (if isFactory then ["all_callbacks", "lineage"] else ["all_callbacks"])
    ++ unary ["apply_trait"] ++ binary ["declare", "add_callback"]

def ofBuilder (isFactory : Bool) : Interface :=
  unary (["initialize_with", "to_create"] ++ Event.all.map (·.name))
    ++ [("set", [.positional, .defaulted, .defaultedKeyword]),
      ("association", [.positional, .defaulted, .variadic, .defaultedKeyword, .keywords])]
    ++ binary ["callback"] ++ plain ["__enter__"] ++ variadic ["apply", "__exit__"]
    ++ if isFactory then
      [("trait", [.positional]), ("factory", [.positional, .defaulted, .defaultedKeyword])]
    else []

def ofRegistry : Interface :=
  plain ["touch", "reset"] ++ unary ["register_factory", "factory", "_scope_factory"]
    ++ binary ["resolve_trait"]
    ++ [("register_trait", [.positional, .positional, .positional])]

def ofResolver : Interface :=
  unaryOption ["compile"] ++ plain ["invalidate"] ++ binary ["_static_layers"]
    ++ [("_cached", [.positional, .positional, .positional])]

/-- One run and several runs under each strategy. -/
def ofStrategies : Interface :=
  Strategy.all.flatMap fun s =>
    [(s.name, [.positionalOnly, .variadic, .keywords]),
      (s.name ++ "_list", [.positionalOnly, .positionalOnly, .variadic, .keywords])]

def ofRunner : Interface :=
  unaryOption ["compile"] ++ plain ["reset"]
    ++ [("run", [.positional, .positional, .defaulted, .defaulted]),
      ("run_list", [.positional, .positional, .positional, .defaulted, .defaulted]),
      ("_associate", [.positional, .positional, .positional, .positional])]
    ++ ofStrategies

def ofEvaluator : Interface :=
  [("reset_stub_ids", []), ("evaluate", [.positional, .positional, .defaulted])]
    ++ binary ["_construct", "_persist", "_stub"]
    ++ [("_run_callbacks", [.positional, .positional, .positional, .positional])]

def ofContext : Interface :=
  lookupMethod ++ unary ["__getitem__", "__contains__", "__getattr__"]

def ofEvaluation : Interface :=
  unary ["read", "_compute"] ++ binary ["_build_association"] ++ plain ["resolve"]

def ofCallable : Interface := [("__call__", [.variadic, .keywords])]

/-- What members of enumerations have: each is the only one of its kind, and its copy is itself. -/
def ofMember : Interface := plain ["__copy__"] ++ unary ["__deepcopy__"]

end Interface

namespace World

/-- The methods of a value's own kind. -/
def ownInterface (w : World) : Value → Interface
  | .model m => Interface.unary (m.methods.map (·.1))
  | .object o => ((w.heap.get? o).map Interface.ofObject).getD []
  | .tableView serial aspect table =>
    (Interface.ofPlainType? (w.typeName (.tableView serial aspect table))).getD
      (Interface.ofSnapshotView (aspect ≠ .values))
  | .type name => Interface.ofPlainTypeItself name
  | .enumeration _ => Interface.ofEnumeration
  | .plan _ => Interface.ofPlan
  | .definition d => Interface.ofDefinition (w.isFactory d)
  | .builder b => Interface.ofBuilder (w.buildsFactory b)
  | .registry _ => Interface.ofRegistry
  | .resolver _ => Interface.ofResolver
  | .runner _ => Interface.ofRunner
  | .evaluator _ => Interface.ofEvaluator
  | .evaluation _ => Interface.ofEvaluation
  | .context _ => Interface.ofContext
  | .function _ | .method _ _ _ => Interface.ofCallable
  | v =>
    if v.asText?.isSome then Interface.ofText
    else (Interface.ofPlainType? (w.typeName v)).getD []

/-- **The methods of a value.** -/
def interface (w : World) (v : Value) : Interface :=
  match v with
  | .model _ | .type _ | .enumeration _ => w.ownInterface v
  | .keyword _ | .symbol _ _ | .textSymbol _ _ =>
    w.ownInterface v ++ Interface.ofMember ++ Interface.ofAnything
  | v => w.ownInterface v ++ Interface.ofAnything

/-- The methods of a value that do not tell their parameters. -/
def untold (w : World) (v : Value) : List String :=
  match v with
  | .tableView _ _ _ => Interface.untoldOfView
  | .type name => Interface.untoldOfType name
  | v => if v.asText?.isSome then Interface.untoldOfText else Interface.untoldOfType (w.typeName v)

/-- The parameters of a method of a value. -/
def method? (w : World) (receiver : Value) (name : String) : Option Signature :=
  (w.interface receiver).lookup name

end World

end TraitFactory
