import TraitFactory.Folder.Making
import TraitFactory.Settings.Checking
import TraitFactory.Text.Quoted
import TraitFactory.Toml.Reading

/-!
# Loading settings

Settings come from a file that is named or found in the working folder, and from the
environment, which has the last word on the level to log at. A file of its own holds settings at
its top; the project's file holds them in a table of its table of tools.
-/

namespace TraitFactory

/-- Why a file of settings could not be read. -/
inductive LoadProblem where
  | file (p : FileProblem)
  | malformed
  deriving DecidableEq, Repr

/-- A failure to load settings; `problem` tells why a file that was asked for was not read. -/
structure LoadFailure where
  cause : Cause
  problem : Option LoadProblem := none
  deriving DecidableEq, Repr

namespace Cause

/-- The item of a list of pairs that is no pair. -/
def badPair (index parts : Nat) : Cause :=
  .badValue s!"dictionary update sequence element #{index} has length {parts}; 2 is required"

end Cause

namespace Toml

/-- Whether a value names something: as a key, as an item or as a part of a text. -/
def mentions (name : String) : Toml → Except Cause Bool
  | .table entries => .ok (entries.lookup name).isSome
  | .list items => .ok (items.any fun | .text s => s = name | _ => false)
  | .text s => .ok (1 < (s.splitOn name).length)
  | _ => .error (.wrongType none)

/-- The entry under a key, which only tables have. -/
def entry (key : String) : Toml → Except Cause (Option Toml)
  | .table entries => .ok (entries.lookup key)
  | _ => .error (.noAttribute none)

/-- The two parts of a pair: of a text its characters, of a table its keys. -/
def pair (index : Nat) (v : Toml) : Except Cause (Toml × Toml) :=
  let parts : Option (List Toml) := match v with
    | .list items => some items
    | .table entries => some (entries.map fun e => .text e.1)
    | .text s => some ((Text.codes s).map fun c => .text (Text.ofCode c))
    | _ => none
  match parts with
  | some [key, v] =>
    match key with
    | .list _ | .table _ => .error (.wrongType none)
    | key => .ok (key, v)
  | some parts => .error (.badPair index parts.length)
  | none => .error (.wrongType none)

def pairs (index : Nat) : List Toml → Except Cause (List (Toml × Toml))
  | [] => .ok []
  | v :: vs => do return (← pair index v) :: (← pairs (index + 1) vs)

/-- The entries of a table that may also be written as a list of pairs. -/
def asEntries : Toml → Except Cause (List (Toml × Toml))
  | .table entries => .ok (entries.map fun e => (.text e.1, e.2))
  | .list items => pairs 0 items
  | .text s => pairs 0 ((Text.codes s).map fun c => .text (Text.ofCode c))
  | _ => .error (.wrongType none)

def settingValue : Toml → SettingValue
  | .text s => .text s
  | .int n => .int n
  | .bool b => .bool b
  | v => .other v.typeName

end Toml

namespace Settings

def fileName : String := "fixtura.toml"

def projectFileName : String := "pyproject.toml"

def toolName : String := "fixtura"

def logLevelVariable : String := "FIXTURA_LOG_LEVEL"

/-- The values of an environment's variables. -/
abbrev Environment := List (String × String)

/-- The document in a file, where the file and its bytes are as they should be. -/
def document (bytes : ByteArray) : Except Cause Toml.Entries :=
  match Text.ofBytes? bytes.toList with
  | none => .error .notText
  | some s => Toml.read s

def isFile (f : Folder) (p : PathName) : Except Cause Bool :=
  (f.isFile p).mapError fun problem => .atPath problem p.text

/-- **The file of settings in a folder**: the file of its own, or else the project's file if it
mentions the tool. -/
def findFile (f : Folder) (place : PathName) : Except Cause (Option PathName) := do
  let own := place.append fileName
  let project := place.append projectFileName
  if ← isFile f own then return some own
  else if ← isFile f project then
    match f.read project with
    | .error _ => return none
    | .ok bytes =>
      let tools := ((← document bytes).lookup "tool").getD (.table [])
      if ← tools.mentions toolName then return some project else return none
  else return none

/-- Entries whose keys are all texts. -/
def textKeys (entries : List (Toml × Toml)) : Except Cause (List (String × SettingValue)) :=
  entries.mapM fun
    | (.text key, v) => .ok (key, v.settingValue)
    | _ => .error (.wrongType none)

/-- The part of a document that holds the settings. -/
def sectionOf (path : PathName) (entries : Toml.Entries) : Except Cause (List (Toml × Toml)) := do
  if path.name = projectFileName then
    let tools := (entries.lookup "tool").getD (.table [])
    ((← tools.entry toolName).getD (.table [])).asEntries
  else (Toml.table entries).asEntries

/-- The settings that a file holds, which is shown as another path where it was found. -/
def readFile (f : Folder) (path shown : PathName) : Except LoadFailure (List (Toml × Toml)) :=
  let unreadable := fun (p : LoadProblem) =>
    LoadFailure.mk (.badSettings ("Cannot read config " ++ shown.text)) (some p)
  match f.read path with
  | .error .noPath => .error ⟨.atPath .noPath path.text, none⟩
  | .error .unwritable => .error ⟨.atPath .unwritable path.text, none⟩
  | .error p => .error (unreadable (.file p))
  | .ok bytes =>
    match document bytes with
    | .error .malformedToml => .error (unreadable .malformed)
    | .error cause => .error ⟨cause, none⟩
    | .ok entries => (sectionOf path entries).mapError fun cause => ⟨cause, none⟩

/-- The level that the environment asks for, if it asks for one. -/
def levelOf (env : Environment) : Option String :=
  let level := Text.strip ((env.lookup logLevelVariable).getD "")
  if level.isEmpty then none else some level

/-- The entries of settings once the environment has had its say. -/
def withEnvironment (env : Environment) (entries : List (String × SettingValue)) :
    Table SettingValue :=
  let t := Table.ofList entries
  match levelOf env with
  | some level => t.insert "log_level" (.text level)
  | none => t

/-- **Loads settings** from a file, or from the one that the working folder has, if any. -/
def load (f : Folder) (env : Environment) (path : Option PathName) :
    Except LoadFailure Settings := do
  let plain := fun (cause : Cause) => LoadFailure.mk cause none
  let entries ← match path with
    | some path => readFile f path path
    | none =>
      match ← (findFile f ⟨[], ""⟩).mapError plain with
      | some path => readFile f path (path.below f.location)
      | none => .ok []
  (textKeys entries).mapError plain >>= fun entries =>
    (ofTable (withEnvironment env entries)).mapError plain

end Settings

end TraitFactory
