import TraitFactory.Log.Message
import TraitFactory.Object.Formatting
import TraitFactory.Object.Items
import TraitFactory.Text.Braces

/-!
# Templates of values

Texts with places for values, which are filled with the values of a call: placeholders after
percent signs take one value after another, or what a table has under a key; places between braces
take values by number or by name.
-/

namespace TraitFactory

namespace Cause

def positionalPlace : Cause := .badValue "Format string contains positional fields"

def noSuchArgument (n : Nat) : Cause :=
  .badIndex s!"Replacement index {n} out of range for positional args tuple"

def numberingSwitched (fromAutomatic : Bool) : Cause :=
  let automatic := "automatic field numbering"
  let manual := "manual field specification"
  .badValue ("cannot switch from " ++ (if fromAutomatic then automatic else manual) ++ " to "
    ++ if fromAutomatic then manual else automatic)

def nestedTooDeep : Cause := .badValue "Max string recursion exceeded"

def unknownShape (c : Text.Code) : Cause :=
  let shown := if 32 < c.toNat && c.toNat < 127 then Text.ofCode c
    else "\\x" ++ String.ofList (Nat.toDigits 16 c.toNat)
  .badValue ("Unknown conversion specifier " ++ shown)

end Cause

namespace Action

open Text (TemplatePart Code Replacement PathStep)

/-! ## Percent signs -/

/-- **A kind of template**: how a value fills a placeholder, and the key that a name stands for. -/
structure TemplateKind where
  filling : World → Text.Placeholder → Option Nat → Value → Except Cause Filling
  key : List Code → Value

def TemplateKind.text : TemplateKind := ⟨World.filling, fun name => .text (Text.ofCodes name)⟩

/-- Fills part after part with values; `table` is where keys are looked up. Where there is none, all
values must be taken. -/
def fillParts (host : Host) (kind : TemplateKind) (table : Option Value) :
    List TemplatePart → List Value → Action String
  | [], values => if values.isEmpty || table.isSome then return "" else wrongType
  | .code c :: parts, values => do
    return Text.ofCode c ++ (← fillParts host kind table parts values)
  | .placeholder p :: parts, values => do
    let (s, values) ← ofCause (World.fillPlaceholder (kind.filling (← get)) p values)
    return s ++ (← fillParts host kind table parts values)
  | .key name :: parts, _ => do
    match table with
    | none => wrongType
    | some table => fillParts host kind table parts [← getItem host table (kind.key name)]
  | .unfinishedKey :: _, _ =>
    if table.isSome then fail (.badValue "incomplete format key") else wrongType
  | .unfinished width precision :: _, values =>
    ofCause (World.unfinished width precision values)

/-- Whether parts of a value that is no byte string are found under keys. -/
def hasKeyedParts (v : Value) : Action Bool := do
  let v := v.behind
  match v, (← get).heap.object? v with
  | .fields _, _ | .context _, _ | .enumeration _, _ => return true
  | _, some (.list _) | _, some (.dict _) | _, some (.snapshot _) => return true
  | _, _ => return false

/-- A template filled with the items of a tuple, or with one value, in which keys may be looked up
if it is `keyed`. -/
def filledWith (host : Host) (kind : TemplateKind) (parts : List TemplatePart) (v : Value)
    (keyed : Bool) : Action String := do
  match (← get).tuple? v with
  | some values => fillParts host kind none parts values
  | none => fillParts host kind (if keyed then some v else none) parts [v]

/-- **A template filled** with the items of a tuple, or with one value. -/
def fillTemplate (host : Host) (template : String) (v : Value) : Action Value := do
  let keyed := match v with
    | .bytes _ => pure true
    | v => hasKeyedParts v
  return .text (← filledWith host .text (TemplatePart.ofText template) v (← keyed))

/-! ## Braces -/

/-- **What the places between braces take their values from**: a list of values, if there is one,
and a table of named ones, if there is one. -/
structure Supply where
  values : Option (List Value)
  table : Option Value

/-- How places were numbered so far: by their own numbers, or one after another. -/
inductive Numbering where
  | undecided
  | manual
  | automatic (next : Nat)
  deriving DecidableEq, Repr

/-- The number of a place without a name, or with a number for a name. -/
def Numbering.place (n : Numbering) (given : Option Nat) : Except Cause (Nat × Numbering) :=
  match n, given with
  | .undecided, none => .ok (0, .automatic 1)
  | .automatic next, none => .ok (next, .automatic (next + 1))
  | .manual, none => .error (.numberingSwitched false)
  | .undecided, some i | .manual, some i => .ok (i, .manual)
  | .automatic _, some _ => .error (.numberingSwitched true)

/-- The value that a name stands for. -/
def Supply.find (host : Host) (s : Supply) (n : Numbering) (name : List Code) :
    Action (Value × Numbering) := do
  let index ← ofCause (Text.indexOf? name)
  if name.isEmpty || index.isSome then
    let (i, n) ← ofCause (n.place index)
    match s.values with
    | none => fail .positionalPlace
    | some values =>
      match values[i]? with
      | some v => return (v, n)
      | none => fail (.noSuchArgument i)
  else
    let key := Text.ofCodes name
    match s.table with
    | some table => return (← getItem host table (.text key), n)
    | none => fail (.missingKey (Text.quoted key))

/-- Follows a path from a value. Each step takes a code, so `fuel` is the length of the path. -/
def followPath (host : Host) : Nat → Value → List Code → Action Value
  | 0, v, _ => return v
  | fuel + 1, v, path => do
    match ← ofCause (Text.nextStep path) with
    | none => return v
    | some (.attribute name, rest) => followPath host fuel (← getAttr host v name) rest
    | some (.item name, rest) => followPath host fuel (← getItem host v (.text name)) rest
    | some (.position n, rest) => followPath host fuel (← getItem host v (.int n)) rest

/-- A value in the shape that is asked for before it is laid out. -/
def reshaped (v : Value) : Option Code → Action Value
  | none => return v
  | some c => do
    if c = 'r' then return .text (← quoted v)
    else if c = 's' then return .text (← plainText v)
    else if c = 'a' then return .text (Text.asciiOnly (← quoted v))
    else fail (.unknownShape c)

/-- Fills one place; `fill` fills the places in its specification. -/
def fillPlace (host : Host) (s : Supply)
    (fill : Numbering → List Code → Action (String × Numbering)) (n : Numbering)
    (r : Replacement) : Action (String × Numbering) := do
  let (head, path) := Text.pathHead r.name
  let (v, n) ← s.find host n head
  let v ← followPath host (path.length + 1) v path
  let v ← reshaped v r.conversion
  let (spec, n) ← if r.isNested then fill n r.spec else pure (Text.ofCodes r.spec, n)
  return (← formatted v spec, n)

/-- Fills the places of a text; `fill` fills those in specifications. Each step takes a code, so
`fuel` is the length of the text. -/
def fillPlacesWith (host : Host) (s : Supply)
    (fill : Numbering → List Code → Action (String × Numbering)) :
    Nat → Numbering → List Code → Action (String × Numbering)
  | 0, n, _ | _, n, [] => return ("", n)
  | fuel + 1, n, cs => do
    let (before, place, rest) ← ofCause (Text.nextPart cs)
    let (shown, n) ← match place with
      | none => pure ("", n)
      | some r => fillPlace host s fill n r
    let (after, n) ← fillPlacesWith host s fill fuel n rest
    return (Text.ofCodes before ++ shown ++ after, n)

/-- Fills the places of a text that lies so deep in others. -/
def fillPlacesAt (host : Host) (s : Supply) :
    Nat → Numbering → List Code → Action (String × Numbering)
  | 0, _, _ => fail .nestedTooDeep
  | depth + 1, n, cs => fillPlacesWith host s (fillPlacesAt host s depth) (cs.length + 1) n cs

/-- **A text with its places filled.** Specifications may hold places, but those in them no more. -/
def fillPlaces (host : Host) (s : Supply) (cs : List Code) : Action Value := do
  return .text (← fillPlacesAt host s 2 .undecided cs).1

end Action

end TraitFactory
