import TraitFactory.Number.Double

/-!
# TOML

Values of the TOML configuration format. A document is a table; tables keep the order of their
keys. Dates and times are told apart, and nothing more is kept of them.
-/

namespace TraitFactory

inductive Toml where
  | text (s : String)
  | int (n : Int)
  | float (x : Double)
  | bool (b : Bool)
  | date
  | time
  | datetime
  | list (items : List Toml)
  | table (entries : List (String × Toml))
  deriving Repr

namespace Toml

instance : Inhabited Toml := ⟨.table []⟩

abbrev Entries := List (String × Toml)

/-- The name of a value's type. -/
def typeName : Toml → String
  | .text _ => "str"
  | .int _ => "int"
  | .float _ => "float"
  | .bool _ => "bool"
  | .date => "date"
  | .time => "time"
  | .datetime => "datetime"
  | .list _ => "list"
  | .table _ => "dict"

/-- Sets the value of a key, in its place or at the end. -/
def setEntry (key : String) (v : Toml) : Entries → Entries
  | [] => [(key, v)]
  | (k, w) :: es => if k = key then (k, v) :: es else (k, w) :: setEntry key v es

/-- Changes the table at a path, making tables on the way. A list on the way stands for its last
item when `intoLists` is set; what is neither table nor such a list blocks the way. -/
def modifyAt (intoLists : Bool) (f : Entries → Option Entries) :
    List String → Entries → Option Entries
  | [], es => f es
  | key :: path, es =>
    match es.lookup key with
    | none => do return setEntry key (.table (← modifyAt intoLists f path [])) es
    | some (.table inner) => do
      return setEntry key (.table (← modifyAt intoLists f path inner)) es
    | some (.list items) =>
      if intoLists then
        match items.getLast? with
        | some (.table inner) => do
          let inner ← modifyAt intoLists f path inner
          return setEntry key (.list (items.dropLast ++ [.table inner])) es
        | _ => none
      else none
    | some _ => none

/-- Adds a key that must be new. -/
def addEntry (key : String) (v : Toml) (es : Entries) : Option Entries :=
  match es.lookup key with
  | some _ => none
  | none => some (es ++ [(key, v)])

/-- Adds an empty table to the list under a key. -/
def appendTable (key : String) (es : Entries) : Option Entries :=
  match es.lookup key with
  | none => some (es ++ [(key, .list [.table []])])
  | some (.list items) => some (setEntry key (.list (items ++ [.table []])) es)
  | some _ => none

end Toml

end TraitFactory
