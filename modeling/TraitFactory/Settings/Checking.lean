import TraitFactory.Failure
import TraitFactory.Settings
import TraitFactory.Table
import TraitFactory.Text.Blank

/-!
# Checking settings

Turns a table of entries into settings. Unknown keys are reported together and before anything
else; then each entry must have its key's type; the level to log at is checked last.
-/

namespace TraitFactory

/-- What a table of settings holds under a key. Of a value that no setting takes, only the name
of its type matters. -/
inductive SettingValue where
  | text (s : String)
  | int (n : Int)
  | bool (b : Bool)
  | other (type : String)
  deriving DecidableEq, Repr

namespace SettingValue

def typeName : SettingValue → String
  | .text _ => "str"
  | .int _ => "int"
  | .bool _ => "bool"
  | .other type => type

end SettingValue

namespace Cause

def unknownSettings (keys : List String) : Cause :=
  .badSettings ("Unknown fixtura config keys: " ++ ", ".intercalate keys)

def mistypedSetting (key expected given : String) : Cause :=
  .badSettings s!"Config key '{key}' must be {expected}, got {given}"

def badLogLevel (level : String) : Cause := .badSettings s!"Invalid log_level '{level}'"

end Cause

namespace Settings

/-- Every setting with the name of its type. -/
def types : List (String × String) :=
  [("stub_id_start", "int"), ("use_parent_strategy", "bool"), ("cache_plans", "bool"),
    ("log_level", "str")]

def isKnown (key : String) : Bool := (types.lookup key).isSome

/-- The levels that may be set. -/
def logLevels : List String := ["DEBUG", "INFO", "WARNING", "ERROR", "CRITICAL"]

/-- Takes one entry over. A truth value is no integer, and an integer no truth value. -/
def assign (s : Settings) (key : String) (v : SettingValue) : Except Cause Settings :=
  match key, v with
  | "stub_id_start", .int n => .ok { s with stubIdStart := n }
  | "use_parent_strategy", .bool b => .ok { s with useParentStrategy := b }
  | "cache_plans", .bool b => .ok { s with cachePlans := b }
  | "log_level", .text level => .ok { s with logLevel := level }
  | _, v => .error (.mistypedSetting key ((types.lookup key).getD "") v.typeName)

def assignAll (s : Settings) : List (String × SettingValue) → Except Cause Settings
  | [] => .ok s
  | (key, v) :: entries => do (← s.assign key v).assignAll entries

/-- Levels are written in capitals, whatever they were given in. -/
def checkLogLevel (s : Settings) : Except Cause Settings :=
  let level := Text.capitals s.logLevel
  if logLevels.contains level then .ok { s with logLevel := level }
  else .error (.badLogLevel s.logLevel)

/-- The keys that are no setting, in the order of their characters. -/
def unknownKeys (entries : Table SettingValue) : List String :=
  (entries.keys.filter fun key => !isKnown key).mergeSort fun a b => !Text.before b a

/-- **Settings from a table.** What the table does not hold keeps its usual value. -/
def ofTable (entries : Table SettingValue) : Except Cause Settings :=
  match unknownKeys entries with
  | [] => do ((← ({} : Settings).assignAll entries.entries).checkLogLevel)
  | keys => .error (.unknownSettings keys)

end Settings

end TraitFactory
