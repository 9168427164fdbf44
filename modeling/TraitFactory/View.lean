import TraitFactory.Keyword
import TraitFactory.Number.Double
import TraitFactory.Number.Length

/-!
# Views

A view is a value seen as a finite tree: references are followed, and an object met again inside
itself is marked. Views are what answers, traces and messages show. `View.quoted` is the text of
a value as a part of others; `View.plainText` is its text on its own.
-/

namespace TraitFactory

inductive View where
  | null
  | bool (b : Bool)
  | int (n : Int)
  | float (x : Double)
  | text (s : String)
  | bytes (bs : List UInt8)
  | list (items : List View)
  | tuple (items : List View)
  | dict (entries : List (View × View))
  | record (model : String) (fields : List (String × View))
  | symbol (payload : View)
  | textSymbol (s : String)
  | keyword (k : Keyword)
  | sealed (label : String)
  | model (name : String)
  | enumeration (name : String)
  | function (name : String)
  | fixed (value : View) (shared : Bool)
  | computed (fn : String)
  | association (factory : Option String) (traits : List String)
      (overrides : View) (strategy : Option Strategy)
  | builder (label : String)
  | definition (label : String)
  | plan (factory : String) (traits : List String)
  | set (members : List View)
  /-- Something with named parts. On its own it may be shown by its parts alone. -/
  | structure (type : String) (bare : Bool) (parts : List (String × View))
  /-- Something shown by what it is made from. -/
  | made (type : String) (parts : List View)
  /-- Anything else, by the name of its type. -/
  | other (type : String)
  /-- An object met again `up` containers further out, with the text that stands for it. -/
  | cycle (up : Nat) (mark : String)
  deriving Repr

namespace View

instance : Inhabited View := ⟨.null⟩

def bracketed (l r : String) (parts : List String) : String := l ++ ", ".intercalate parts ++ r

/-- A tuple of one part keeps its comma. -/
def tupleText : List String → String
  | [part] => "(" ++ part ++ ",)"
  | parts => bracketed "(" ")" parts

def boolText (b : Bool) : String := if b then "True" else "False"

def optionalText : Option String → String
  | some s => Text.quoted s
  | none => "None"

def strategyText : Option Strategy → String
  | some s => (Keyword.strategy s).shown
  | none => "None"

/-! ## Parts of attribute values -/

def fixedParts (value : String) (shared : Bool) : List String :=
  ["kind='fixed'", "value=" ++ value, "shared=" ++ boolText shared]

def computedParts (fn : String) : List String :=
  ["kind='computed'", "fn=<function " ++ fn ++ ">"]

def associationParts (factory : Option String) (traits : List String) (overrides : String)
    (strategy : Option Strategy) : List String :=
  ["kind='association'", "factory=" ++ optionalText factory,
    "traits=" ++ tupleText (traits.map Text.quoted),
    "overrides=" ++ overrides,
    "strategy=" ++ strategyText strategy]

/-! ## Texts -/

mutual

/-- Whether all whole numbers in a view have a decimal text. -/
def isWritable : View → Bool
  | .int n => Number.isWritable n
  | .list items | .tuple items => allWritable items
  | .dict entries => entriesWritable entries
  | .record kind fields => kind ≠ "SimpleNamespace" || namedWritable fields
  | .symbol payload => isWritable payload
  | .fixed value _ => isWritable value
  | .association _ _ overrides _ => isWritable overrides
  | .set members => allWritable members
  | .structure _ _ parts => namedWritable parts
  | .made _ parts => allWritable parts
  | _ => true

def allWritable : List View → Bool
  | [] => true
  | v :: vs => isWritable v && allWritable vs

def entriesWritable : List (View × View) → Bool
  | [] => true
  | (k, v) :: es => isWritable k && isWritable v && entriesWritable es

def namedWritable : List (String × View) → Bool
  | [] => true
  | (_, v) :: fs => isWritable v && namedWritable fs

end

mutual

/-- **The text of a view inside other values**: texts are between quotes. -/
def quoted : View → String
  | .null => "None"
  | .bool b => boolText b
  | .int n => toString n
  | .float x => x.text
  | .text s => Text.quoted s
  | .bytes bs => Text.quotedBytes bs
  | .list items => bracketed "[" "]" (quotedAll items)
  | .tuple items => tupleText (quotedAll items)
  | .dict entries => bracketed "\x7b" "\x7d" (quotedEntries entries)
  | .record kind fields =>
    if kind = "SimpleNamespace" then bracketed "namespace(" ")" (quotedFields fields)
    else "<" ++ kind ++ ">"
  | .symbol payload => "<Ref.M: " ++ quoted payload ++ ">"
  | .textSymbol s => "<SRef.M: " ++ Text.quoted s ++ ">"
  | .keyword k => k.shown
  | .sealed label => "<opaque " ++ label ++ ">"
  | .model name => "<class " ++ Text.quoted name ++ ">"
  | .enumeration name => "<enum " ++ Text.quoted name ++ ">"
  | .function name => "<function " ++ name ++ ">"
  | .fixed value shared => bracketed "Fixed(" ")" (fixedParts (quoted value) shared)
  | .computed fn => bracketed "Computed(" ")" (computedParts fn)
  | .association factory traits overrides strategy =>
    bracketed "Association(" ")"
      (associationParts factory traits (quoted overrides) strategy)
  | .builder label => "<builder " ++ label ++ ">"
  | .definition label => "<definition " ++ label ++ ">"
  | .plan factory _ => "<plan " ++ factory ++ ">"
  | .set members =>
    if members.isEmpty then "set()" else bracketed "\x7b" "\x7d" (quotedAll members)
  | .structure type _ parts => type ++ bracketed "(" ")" (quotedFields parts)
  | .made type parts => type ++ bracketed "(" ")" (quotedAll parts)
  | .other type => if type = "NotImplementedType" then "NotImplemented" else "<" ++ type ++ ">"
  | .cycle _ mark => mark

def quotedAll : List View → List String
  | [] => []
  | v :: vs => quoted v :: quotedAll vs

def quotedEntries : List (View × View) → List String
  | [] => []
  | (k, v) :: es => (quoted k ++ ": " ++ quoted v) :: quotedEntries es

/-- Fields without a name are not shown. -/
def quotedFields : List (String × View) → List String
  | [] => []
  | (name, v) :: fs =>
    if name.isEmpty then quotedFields fs else (name ++ "=" ++ quoted v) :: quotedFields fs

end

/-- **The text of a view on its own**: texts stand as they are, and the parts of an attribute
value have blanks between them and no brackets around them. -/
def plainText : View → String
  | .text s => s
  | .textSymbol s => s
  | .symbol _ => "Ref.M"
  | .keyword k => k.text
  | .fixed value shared => " ".intercalate (fixedParts value.quoted shared)
  | .computed fn => " ".intercalate (computedParts fn)
  | .association factory traits overrides strategy =>
    " ".intercalate (associationParts factory traits overrides.quoted strategy)
  | .structure _ true parts => " ".intercalate (quotedFields parts)
  | v => v.quoted

end View

end TraitFactory
