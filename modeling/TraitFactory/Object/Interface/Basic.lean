import TraitFactory.Signature

/-!
# Interfaces

An interface names methods and says what parameters each takes.
-/

namespace TraitFactory

/-- Methods by their names. -/
abbrev Interface := List (String × Signature)

namespace Interface

/-- Methods that take nothing. -/
def plain (names : List String) : Interface := names.map (·, [])

/-- Methods that take one thing. -/
def unary (names : List String) : Interface := names.map (·, [.positional])

/-- Methods that take two things. -/
def binary (names : List String) : Interface := names.map (·, [.positional, .positional])

/-- Methods that take one thing or nothing. -/
def option (names : List String) : Interface := names.map (·, [.defaulted])

/-- Methods that take one thing, or two, or nothing. -/
def options (names : List String) : Interface := names.map (·, [.defaulted, .defaulted])

/-- Methods that take one thing and perhaps another. -/
def unaryOption (names : List String) : Interface := names.map (·, [.positional, .defaulted])

/-- Methods that take two things and perhaps a third. -/
def binaryOption (names : List String) : Interface :=
  names.map (·, [.positional, .positional, .defaulted])

/-- Methods that look for something, perhaps between two positions. -/
def search (names : List String) : Interface :=
  names.map (·, [.positional, .defaulted, .defaulted])

/-- Methods that take anything by position. -/
def variadic (names : List String) : Interface := names.map (·, [.variadic])

/-! ## What is behind operators -/

def lookupMethod : Interface := unaryOption ["get"]

/-- What is behind length and membership. -/
def ofSized : Interface := plain ["__len__"] ++ unary ["__contains__"]

/-- What is behind going through something. -/
def ofIterable : Interface := plain ["__iter__"]

/-- What is behind length, membership, going through something and its parts. -/
def ofIndexed : Interface := ofSized ++ ofIterable ++ unary ["__getitem__"]

/-- What is behind repetition. -/
def ofRepeated : Interface := unary ["__add__", "__mul__", "__rmul__"]

/-- The operators of sets. -/
def ofSetOperators (inPlace : Bool) : Interface :=
  unary (["and", "or", "sub", "xor"].flatMap fun op =>
    ["__" ++ op ++ "__", "__r" ++ op ++ "__"]
      ++ if inPlace then ["__i" ++ op ++ "__"] else [])

def ofTable : Interface := lookupMethod ++ plain ["keys", "values", "items"]

/-- What every value has that is no class. -/
def ofAnything : Interface :=
  plain ["__repr__", "__str__", "__hash__"]
    ++ unary ["__eq__", "__ne__", "__lt__", "__le__", "__gt__", "__ge__", "__getattribute__",
      "__format__", "__delattr__"]
    ++ binary ["__setattr__"]

end Interface

end TraitFactory
