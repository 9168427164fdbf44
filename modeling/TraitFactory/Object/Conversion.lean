import TraitFactory.Object.ByteMethods
import TraitFactory.Object.Containers
import TraitFactory.Object.NumberMethods
import TraitFactory.Object.Sets
import TraitFactory.Text.Numeral

/-!
# Conversions

What a plain type makes of the values that it is called with: a number of a text, a text of any
value, a container of what another yields. Called with nothing, a type gives what counts as false.
An enumeration finds its member that stands for a value.
-/

namespace TraitFactory

namespace Cause

def notWhole (base : Int) (shown : String) : Cause :=
  .badValue s!"invalid literal for int() with base {base}: {shown}"

def notReal (shown : String) : Cause :=
  .badValue ("could not convert string to float: " ++ shown)

def badBase : Cause := .badValue "int() base must be >= 2 and <= 36, or 0"

def notAMember (shown enumeration : String) : Cause :=
  .badValue (shown ++ " is not a valid " ++ enumeration)

end Cause

namespace Action

/-! ## Numbers -/

/-- The text that a numeral is read from. Bytes outside ASCII are in no numeral. -/
def numeralText? : Value → Option String
  | .bytes bs => some (Bytes.text (bs.map fun b => if b < 127 then b else Bytes.ofChar '?'))
  | v => v.asText?

/-- How much is shown of what is no whole number. -/
def shownNumeralSize : Nat := 200

/-- The whole number that a value is the text of, in a base; the base zero is told by the text. -/
def wholeFromText (v : Value) (s : String) (base : Int) : Action Value := do
  match Text.wholeNumber (if base = 0 then none else some base.toNat) s with
  | .ok n => return .int n
  | .error (.tooLong digits) => fail (.unreadable digits)
  | .error .malformed => do
    let shown := Text.ofCodes ((Text.codes (← quoted v)).take shownNumeralSize)
    fail (.notWhole base shown)

def makeWhole (arguments : List Value) : Action Value := do
  match arguments with
  | [] => return .int 0
  | [v] =>
    match numeralText? v, v, v.asInt? with
    | some s, _, _ => wholeFromText v s 10
    | none, .float _ x, _ => wholeFrom "float " x Double.truncated
    | none, _, some n => return .int n
    | none, _, none => wrongType
  | [v, base] => do
    let base ← wholeOf base
    if base ≠ 0 && (base < 2 || 36 < base) then fail .badBase
    match numeralText? v with
    | some s => wholeFromText v s base
    | none => wrongType
  | _ => wrongType

def makeReal (arguments : List Value) : Action Value := do
  match arguments with
  | [] => newFloat .zero
  | [v] =>
    match numeralText? v, v with
    | some s, _ =>
      match Text.realNumber? s with
      | some x => newFloat x
      | none => do fail (.notReal (← quoted v))
    | none, .float _ _ => return v
    | none, v => realResult (World.number v)
  | _ => wrongType

/-! ## Texts and byte strings -/

def makeText (arguments : List Value) : Action Value := do
  match arguments with
  | [] => return .text ""
  | [v] => return .text (← plainText v)
  | .bytes bs :: rest => decoded bs rest
  | _ => wrongType

def makeBytes (arguments : List Value) : Action Value := do
  match arguments with
  | [] => return .bytes []
  | [v] =>
    match v.asInt? with
    | none => return .bytes (← givenBytes v)
    | some n =>
      if !sizeWord.holds n then fail (.overflow "cannot fit 'int' into an index-sized integer")
      if n < 0 then fail (.badValue "negative count")
      roomFor n.toNat
      return .bytes (List.replicate n.toNat 0)
  | v :: rest =>
    match v.asText? with
    | some s => encoded (Text.codes s) rest
    | none => wrongType

/-! ## Members of enumerations -/

/-- The first member of some that stands for a value. -/
def memberFor (x : Value) : List Value → Action (Option Value)
  | [] => return none
  | m :: ms => do if ← equalPart (memberValue m) x then return some m else memberFor x ms

/-- **The member of an enumeration for a value**, or for the member itself. -/
def memberOf (member x : Value) : Action Value := do
  if (siblings member).contains x then return x
  match ← memberFor x (siblings member) with
  | some m => return m
  | none => fail (.notAMember (← quoted x) (World.familyName member))

/-! ## Calls -/

/-- **What a type makes** of some values and keywords. -/
def makeOf (host : Host) (type : String) (arguments : List Value)
    (keywords : List (String × Value)) : Action Value := do
  if !keywords.isEmpty && type ≠ "dict" then wrongType
  match type, arguments with
  | "NoneType", [] => return .null
  | "NotImplementedType", [] => return .notImplemented
  | "object", [] => return .inner "object" (.int (← newSerial)) "object"
  | "type", [v] => return (← get).typeOf v
  | "bool", [] => return .bool false
  | "bool", [v] => return .bool ((← get).isTrue v)
  | "int", arguments => makeWhole arguments
  | "float", arguments => makeReal arguments
  | "str", arguments => if arguments.length ≤ 3 then makeText arguments else wrongType
  | "bytes", arguments => if arguments.length ≤ 3 then makeBytes arguments else wrongType
  | "list", [] => alloc (.list [])
  | "list", [v] => do alloc (.list (← elements v))
  | "tuple", [] => Parts.tuple []
  | "tuple", [v] => do
    match (← get).typeName v with
    | "tuple" => return v
    | _ => Parts.tuple (← elements v)
  | "set", [] => alloc (.set [])
  | "set", [v] => do alloc (.set (← membersOf v))
  | "dict", others => do
    if 1 < others.length then wrongType
    let table ← alloc (.dict [])
    updateTable host table others.head? keywords
    return table
  | _, _ => wrongType

end Action

end TraitFactory
