import TraitFactory.CommandLine.Options
import TraitFactory.Folder

/-!
# Requests

What the command line asks for: options for the whole program, one of its commands, and the
arguments of that command.
-/

namespace TraitFactory

/-- Commands look into the factories that modules declare. -/
inductive CommandName where
  | factories
  | plan
  | attributes
  deriving DecidableEq, Repr

namespace CommandName

def all : List (String × CommandName) :=
  [("factories", .factories), ("plan", .plan), ("attributes", .attributes)]

def find? (s : String) : Option CommandName := all.lookup s

end CommandName

namespace OptionRule

def help : OptionRule := ⟨"help", ["--help"], false⟩

/-- Options that stand before the command. -/
def ofProgram : List OptionRule :=
  [⟨"version", ["--version"], false⟩, ⟨"verbose", ["--verbose", "-v"], false⟩,
    ⟨"log-file", ["--log-file"], true⟩, ⟨"config", ["--config", "-c"], true⟩, help]

def factory : OptionRule := ⟨"factory", ["--factory", "-f"], true⟩

def trait : OptionRule := ⟨"trait", ["--trait", "-t"], true⟩

def set : OptionRule := ⟨"set", ["--set", "-s"], true⟩

/-- Options that stand after the command. -/
def ofCommand : CommandName → List OptionRule
  | .factories => [help]
  | .plan => [factory, trait, help]
  | .attributes => [factory, trait, set, help]

end OptionRule

/-- **The options for the whole program**, with the command and what stands after it. -/
structure ProgramRequest where
  verbose : Bool
  logFile : Option PathName
  config : Option PathName
  command : CommandName
  arguments : List String
  deriving DecidableEq, Repr

/-- Where the log's file is. -/
def ProgramRequest.logPlace (r : ProgramRequest) : Option PathName :=
  r.logFile.map PathName.straight

/-- What the program's own options lead to. -/
inductive Opening where
  | version
  | help
  | request (r : ProgramRequest)
  deriving DecidableEq, Repr

namespace Opening

/-- The path that an option names last. -/
def pathOf (a : CommandArguments) (key : String) : Except UsageError (Option PathName) :=
  match (a.values key).getLast?.map PathName.ofText with
  | none => .ok none
  | some p => if p.canBe then .ok (some p) else .error (.badPath ("--" ++ key))

/-- **Reads the program's options.** Asking for the version or for help comes before anything
else, the first of the two winning; of other options the last one counts. -/
def read (args : List String) : Except UsageError Opening := do
  if args.isEmpty then throw .missingCommand
  let a ← CommandArguments.read OptionRule.ofProgram false args
  match a.options.find? fun o => o.key = "version" || o.key = "help" with
  | some o => return if o.key = "version" then .version else .help
  | none =>
    let logFile ← pathOf a "log-file"
    let config ← pathOf a "config"
    match a.positional with
    | [] => throw .missingCommand
    | name :: arguments =>
      match CommandName.find? name with
      | none => throw (.unknownCommand name)
      | some command =>
        return .request
          { verbose := a.has "verbose"
            logFile := logFile
            config := config
            command := command
            arguments := arguments }

end Opening

/-- **The arguments of a command**: the modules to load, and which factory to look at in which
way. -/
structure CommandRequest where
  modules : List String
  factory : String
  traits : List String
  assignments : List String
  deriving DecidableEq, Repr

namespace CommandRequest

/-- Reads the arguments after a command; `none` asks for help. -/
def read (command : CommandName) (args : List String) :
    Except UsageError (Option CommandRequest) := do
  let a ← CommandArguments.read (OptionRule.ofCommand command) true args
  if a.has "help" then return none
  if a.positional.isEmpty then throw (.missingArgument "MODULES...")
  match (a.values "factory").getLast?, command with
  | none, .plan | none, .attributes => throw (.missingOption "--factory")
  | factory, _ =>
    return some
      { modules := a.positional
        factory := factory.getD ""
        traits := a.values "trait"
        assignments := a.values "set" }

end CommandRequest

end TraitFactory
