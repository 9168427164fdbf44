import TraitFactory.Object.Interface.Basic

/-!
# Interfaces of plain values

The methods of numbers, texts, byte strings and containers. Some of them do not tell their
parameters to those who would look at them.
-/

namespace TraitFactory

namespace Interface

/-! ## Containers -/

def ofList : Interface :=
  unary ["append", "extend", "remove", "count", "__iadd__", "__imul__", "__delitem__"]
    ++ binary ["insert", "__setitem__"] ++ option ["pop"]
    ++ plain ["clear", "copy", "reverse", "sort", "__reversed__"] ++ search ["index"]
    ++ ofIndexed ++ ofRepeated

def ofTuple : Interface :=
  unary ["count"] ++ search ["index"] ++ plain ["__getnewargs__"] ++ ofIndexed ++ ofRepeated

def ofDict : Interface :=
  ofTable ++ unaryOption ["pop", "setdefault", "fromkeys"]
    ++ plain ["popitem", "clear", "copy", "__reversed__"]
    ++ [("update", [.defaulted, .keywords])] ++ binary ["__setitem__"]
    ++ unary ["__or__", "__ror__", "__ior__", "__delitem__"] ++ ofIndexed

/-- The methods of a dictionary that can only be read. -/
def ofReadOnlyDict : Interface :=
  ofTable ++ plain ["copy", "__reversed__"] ++ unary ["__or__", "__ror__"] ++ ofIndexed

def ofSet : Interface :=
  unary ["add", "remove", "discard", "issubset", "issuperset", "isdisjoint",
      "symmetric_difference", "symmetric_difference_update"]
    ++ plain ["pop", "clear", "copy"]
    ++ variadic ["update", "union", "intersection", "difference", "intersection_update",
      "difference_update"]
    ++ ofSetOperators true ++ ofSized ++ ofIterable

/-- The methods of what a dictionary shows of itself. -/
def ofDictView (isSet : Bool) : Interface :=
  plain ["__len__", "__reversed__"] ++ ofIterable
    ++ if isSet then unary ["isdisjoint", "__contains__"] ++ ofSetOperators false else []

/-- The methods of what a snapshot shows of itself. -/
def ofSnapshotView (isSet : Bool) : Interface :=
  ofSized ++ ofIterable ++ if isSet then unary ["isdisjoint"] ++ ofSetOperators false else []

def ofIteration (generates : Bool) : Interface :=
  plain ["__next__", "__iter__"]
    ++ if generates then plain ["close"] ++ unary ["send"] else plain ["__length_hint__"]

/-! ## Texts and byte strings -/

/-- What texts and byte strings have in common. -/
def ofLetters : Interface :=
  plain ["upper", "lower", "capitalize", "swapcase", "title", "isalpha", "isalnum", "isdigit",
      "isspace", "istitle", "isupper", "islower", "isascii", "__getnewargs__"]
    ++ option ["strip", "lstrip", "rstrip", "splitlines", "expandtabs"]
    ++ unary ["join", "partition", "rpartition", "zfill", "removeprefix", "removesuffix"]
    ++ search ["startswith", "endswith", "find", "rfind", "index", "rindex", "count"]
    ++ unaryOption ["ljust", "rjust", "center"] ++ options ["split", "rsplit"]
    ++ binaryOption ["replace"] ++ ofIndexed ++ ofRepeated

def ofText : Interface :=
  plain ["casefold", "isdecimal", "isnumeric", "isidentifier", "isprintable"]
    ++ options ["encode"] ++ unary ["translate", "format_map", "__mod__", "__rmod__"]
    ++ search ["maketrans"] ++ [("format", [.variadic, .keywords])] ++ ofLetters

def ofBytes : Interface :=
  options ["decode", "hex"] ++ unary ["fromhex", "__mod__", "__rmod__"] ++ unaryOption ["translate"]
    ++ binary ["maketrans"] ++ plain ["__bytes__"] ++ ofLetters

/-! ## Numbers -/

/-- Operators with the operands either way round. -/
def eitherWay (ops : List String) : List String :=
  ops.flatMap fun op => ["__" ++ op ++ "__", "__r" ++ op ++ "__"]

/-- What all numbers have. -/
def ofNumber : Interface :=
  plain ["conjugate", "as_integer_ratio", "__int__", "__float__", "__bool__", "__neg__", "__pos__",
      "__abs__", "__trunc__", "__floor__", "__ceil__", "__getnewargs__"]
    ++ option ["__round__"]
    ++ unary (eitherWay ["add", "sub", "mul", "truediv", "floordiv", "mod", "divmod"])
    ++ unaryOption (eitherWay ["pow"])

def ofWhole : Interface :=
  plain ["bit_length", "bit_count", "__index__", "__invert__"] ++ options ["to_bytes"]
    ++ unaryOption ["from_bytes"]
    ++ unary (eitherWay ["lshift", "rshift", "and", "or", "xor"]) ++ ofNumber

def ofReal : Interface := plain ["is_integer", "hex"] ++ unary ["fromhex"] ++ ofNumber

def ofNull : Interface := plain ["__bool__"]

/-! ## Methods by types -/

/-- The types of what goes through a value. -/
def iterationTypes : List String :=
  ["list_iterator", "list_reverseiterator", "tuple_iterator", "set_iterator", "bytes_iterator",
    "str_iterator", "str_ascii_iterator", "dict_keyiterator", "dict_valueiterator",
    "dict_itemiterator", "dict_reversekeyiterator", "dict_reversevalueiterator",
    "dict_reverseitemiterator", "generator"]

/-- **The methods of the values of a plain type.** -/
def ofPlainType? : String → Option Interface
  | "NoneType" | "NotImplementedType" => some ofNull
  | "bool" | "int" => some ofWhole
  | "float" => some ofReal
  | "str" => some ofText
  | "bytes" => some ofBytes
  | "list" => some ofList
  | "tuple" => some ofTuple
  | "dict" => some ofDict
  | "set" => some ofSet
  | "dict_keys" | "dict_items" => some (ofDictView true)
  | "dict_values" => some (ofDictView false)
  | "mappingproxy" => some ofReadOnlyDict
  | "object" | "type" => some []
  | type => if iterationTypes.contains type then some (ofIteration (type = "generator")) else none

/-- The methods of plain types that are called without a value of the type. -/
def classMethods : List (String × String) :=
  [("dict", "fromkeys"), ("int", "from_bytes"), ("bool", "from_bytes"), ("float", "fromhex"),
    ("bytes", "fromhex"), ("bytes", "maketrans"), ("str", "maketrans")]

/-- What every type has of its own. -/
def ofType : Interface :=
  plain ["mro"] ++ unary ["__instancecheck__", "__subclasscheck__"]
    ++ [("__call__", [.variadic, .keywords])]

/-- **The methods of a plain type**: those of its values, which take the value first. -/
def ofPlainTypeItself (type : String) : Interface :=
  let own := ((ofPlainType? type).map (· ++ ofAnything)).getD []
  own.map (fun m =>
      if classMethods.contains (type, m.1) then m else (m.1, .positionalOnly :: m.2))
    ++ ofType

/-! ## Parameters that are not told -/

/-- The methods of texts that do not tell their parameters. -/
def untoldOfText : List String :=
  ["count", "endswith", "find", "format", "format_map", "index", "maketrans", "rfind", "rindex",
    "startswith", "__getnewargs__"]

def untoldOfBytes : List String :=
  ["capitalize", "count", "endswith", "find", "hex", "index", "isalnum", "isalpha", "isascii",
    "isdigit", "islower", "isspace", "istitle", "isupper", "lower", "rfind", "rindex",
    "startswith", "swapcase", "title", "upper", "__getnewargs__"]

def untoldOfDict : List String :=
  ["__getitem__", "clear", "copy", "items", "keys", "pop", "update", "values"]

def untoldOfSet : List String :=
  ["__contains__", "add", "clear", "copy", "difference", "difference_update", "discard",
    "intersection", "intersection_update", "isdisjoint", "pop", "remove", "symmetric_difference",
    "symmetric_difference_update", "union", "update"]

def untoldOfWhole : List String :=
  ["__ceil__", "__floor__", "__round__", "__trunc__", "conjugate"]

def untoldOfView : List String := ["__reversed__", "isdisjoint"]

/-- The methods of the values of a plain type that do not tell their parameters. -/
def untoldOfType : String → List String
  | "bytes" => untoldOfBytes
  | "bool" | "int" => untoldOfWhole
  | "str" => untoldOfText
  | "dict_keys" | "dict_values" | "dict_items" => untoldOfView
  | "dict" => untoldOfDict
  | "set" => untoldOfSet
  | "list" => ["__getitem__"]
  | type => if iterationTypes.contains type then ["__length_hint__"] else []

end Interface

end TraitFactory
