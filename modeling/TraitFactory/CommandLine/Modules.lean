import TraitFactory.Interpreter
import TraitFactory.Script.Meaning

/-!
# Modules

A module is a script with a name; loading it performs its steps. Where a name has dots, the
module named before the first of them is loaded, and no module holds others. A module is loaded
once only.
-/

namespace TraitFactory

/-- **A module.** A step that cannot be read is kept as none. -/
structure Module where
  name : String
  steps : List (Option Script.Step)

namespace Cause

def noModule (name : String) : Cause := .unimportable ("No module named " ++ Text.quoted name)

def notAPackage (name parent : String) : Cause :=
  .unimportable
    ("No module named " ++ Text.quoted name ++ "; " ++ Text.quoted parent ++ " is not a package")

end Cause

namespace Action

/-- Performs steps up to the first that fails. -/
def performAll : List (Option Script.Step) → Action Unit
  | [] => return
  | none :: _ => wrongType
  | some s :: ss => do
    let _ ← s.eval.run Host.standard
    performAll ss

/-- Loads one module unless it is loaded already. -/
def loadOne (modules : List Module) (loaded : List String) (name : String) :
    Action (List String) := do
  if loaded.contains name then return loaded
  else
    match modules.find? fun m => m.name = name with
    | some m => do
      performAll m.steps
      return name :: loaded
    | none => fail (.noModule name)

/-- **Loads a module** by its name, after the one before its first dot. -/
def loadModule (modules : List Module) (loaded : List String) (name : String) :
    Action (List String) := do
  if name.isEmpty then fail (.badValue "Empty module name")
  else if name.startsWith "." then wrongType
  else
    match name.splitOn "." with
    | parent :: part :: _ => do
      let _ ← loadOne modules loaded parent
      fail (.notAPackage (parent ++ "." ++ part) parent)
    | _ => loadOne modules loaded name

end Action

end TraitFactory
