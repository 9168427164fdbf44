import TraitFactory.CommandLine.Options
import TraitFactory.Failure
import TraitFactory.Json.Reading

/-!
# Assignments

Overrides on the command line, written `key=value`. The value is JSON where it can be read as
that, and plain text otherwise.
-/

namespace TraitFactory

structure Assignment where
  key : String
  value : Json
  deriving Repr

/-- Why a text is no assignment: it lacks a key, or its value is too long or too deep. -/
inductive AssignmentError where
  | usage (e : UsageError)
  | cause (c : Cause)
  deriving DecidableEq, Repr

namespace Assignment

/-- **Reads an assignment.** The first equals sign ends the key, which may not be empty. -/
def ofText (s : String) : Except AssignmentError Assignment :=
  match OptionArgument.splitValue s with
  | (_, none) => .error (.usage (.notAnAssignment s))
  | (key, some value) =>
    if key.isEmpty then .error (.usage (.notAnAssignment s))
    else
      match Json.read value with
      | .ok j => .ok ⟨key, j⟩
      | .error .malformed => .ok ⟨key, .text value⟩
      | .error (.longInteger digits) => .error (.cause (.unreadable digits))

end Assignment

end TraitFactory
