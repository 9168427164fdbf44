/-!
# Options

Reading of arguments by option rules. An option is written with two dashes and a name, its value
after an equals sign or as the next argument, or with one dash and a letter, its value attached
or as the next argument. Two dashes on their own end the options.
-/

namespace TraitFactory

/-- **A rule for an option**: the forms it is written in, and whether a value follows. -/
structure OptionRule where
  key : String
  forms : List String
  takesValue : Bool
  deriving DecidableEq, Repr

/-- An option as it was given. -/
structure GivenOption where
  key : String
  value : Option String
  deriving DecidableEq, Repr

/-- **Why arguments are refused.** -/
inductive UsageError where
  | unknownOption (name : String)
  | missingValue (name : String)
  | unexpectedValue (name : String)
  | missingOption (name : String)
  | missingArgument (name : String)
  | missingCommand
  | unknownCommand (name : String)
  | notAnAssignment (text : String)
  | badPath (name : String)
  deriving DecidableEq, Repr

namespace UsageError

def message : UsageError → String
  | .unknownOption name => "No such option: " ++ name
  | .missingValue name => "Option '" ++ name ++ "' requires an argument."
  | .unexpectedValue name => "Option '" ++ name ++ "' does not take a value."
  | .missingOption name => "Missing option '" ++ name ++ "'."
  | .missingArgument name => "Missing argument '" ++ name ++ "'."
  | .missingCommand => "Missing command."
  | .unknownCommand name => "No such command '" ++ name ++ "'."
  | .notAnAssignment text => "Expected key=value, got '" ++ text ++ "'"
  | .badPath name => "Invalid value for '" ++ name ++ "'."

end UsageError

/-- **Arguments once their options have been read.** -/
structure CommandArguments where
  options : List GivenOption := []
  positional : List String := []
  deriving DecidableEq, Repr

namespace CommandArguments

def addPositional (s : String) (a : CommandArguments) : CommandArguments :=
  { a with positional := s :: a.positional }

/-- The values given for an option, in order. -/
def values (a : CommandArguments) (key : String) : List String :=
  a.options.filterMap fun o => if o.key = key then o.value else none

def has (a : CommandArguments) (key : String) : Bool := a.options.any fun o => o.key = key

end CommandArguments

namespace OptionRule

def ofForm? (rules : List OptionRule) (form : String) : Option OptionRule :=
  rules.find? fun r => r.forms.contains form

end OptionRule

/-- What one argument gives: its options, and the one that is still waiting for its value. -/
structure OptionArgument where
  given : List GivenOption
  waiting : Option (OptionRule × String)
  deriving DecidableEq, Repr

namespace OptionArgument

/-- A dash on its own is no option. -/
def isOption (arg : String) : Bool := arg.startsWith "-" && arg ≠ "-"

def isLong (arg : String) : Bool := arg.startsWith "--"

/-- The letters after one dash. The first that takes a value takes the rest of the argument. -/
def ofLetters (rules : List OptionRule) : List Char → Except UsageError OptionArgument
  | [] => .ok ⟨[], none⟩
  | c :: cs =>
    let form := String.ofList ['-', c]
    match OptionRule.ofForm? rules form with
    | none => .error (.unknownOption form)
    | some r =>
      if r.takesValue then
        if cs.isEmpty then .ok ⟨[], some (r, form)⟩
        else .ok ⟨[⟨r.key, some (String.ofList cs)⟩], none⟩
      else do
        let rest ← ofLetters rules cs
        return { rest with given := ⟨r.key, none⟩ :: rest.given }

/-- A name after two dashes with what follows an equals sign. -/
def ofName (rules : List OptionRule) (name : String) (value : Option String) :
    Except UsageError OptionArgument :=
  match OptionRule.ofForm? rules name, value with
  | none, _ => .error (.unknownOption name)
  | some r, some v =>
    if r.takesValue then .ok ⟨[⟨r.key, some v⟩], none⟩ else .error (.unexpectedValue name)
  | some r, none =>
    if r.takesValue then .ok ⟨[], some (r, name)⟩ else .ok ⟨[⟨r.key, none⟩], none⟩

/-- The parts of a text before and after its first equals sign. -/
def splitValue (s : String) : String × Option String :=
  let cs := s.toList
  match cs.dropWhile (· ≠ '=') with
  | _ :: value => (String.ofList (cs.takeWhile (· ≠ '=')), some (String.ofList value))
  | [] => (s, none)

/-- **Reads one argument that is an option.** -/
def read (rules : List OptionRule) (arg : String) : Except UsageError OptionArgument :=
  if isLong arg then
    let (name, value) := splitValue arg
    ofName rules name value
  else ofLetters rules (arg.toList.drop 1)

end OptionArgument

namespace CommandArguments

def addOptions (os : List GivenOption) (a : CommandArguments) : CommandArguments :=
  { a with options := os ++ a.options }

/-- **Reads arguments by rules.** Unless options may stand among the others, the first argument
that is none ends them. -/
def read (rules : List OptionRule) (interspersed : Bool) :
    List String → Except UsageError CommandArguments
  | [] => .ok {}
  | arg :: args =>
    if arg = "--" then .ok { positional := args }
    else if OptionArgument.isOption arg then
      match OptionArgument.read rules arg, args with
      | .error e, _ => .error e
      | .ok ⟨given, none⟩, args => addOptions given <$> read rules interspersed args
      | .ok ⟨_, some (_, form)⟩, [] => .error (.missingValue form)
      | .ok ⟨given, some (r, _)⟩, value :: args =>
        addOptions (given ++ [⟨r.key, some value⟩]) <$> read rules interspersed args
    else if interspersed then addPositional arg <$> read rules interspersed args
    else .ok { positional := arg :: args }

/-- Without dashes there are no options. -/
theorem read_of_no_options {rules : List OptionRule} {args : List String}
    (h : ∀ arg ∈ args, arg ≠ "--" ∧ OptionArgument.isOption arg = false) :
    read rules true args = .ok { positional := args } := by
  induction args with
  | nil => rfl
  | cons arg args ih =>
    obtain ⟨hdash, hoption⟩ := h arg (by simp)
    have hrest := ih fun a ha => h a (by simp [ha])
    rw [read.eq_def]
    simp only [hdash, hoption, hrest, if_true, if_false, Bool.false_eq_true]
    rfl

end CommandArguments

end TraitFactory
