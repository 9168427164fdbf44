import TraitFactory.Failure
import TraitFactory.Toml.Scalar

/-!
# Reading TOML

A document is a list of statements: a key with its value, or the header of a table or of one
more table of a list. Each table is opened by one header only, and what was written in one piece
cannot be added to later. Of a malformed text and a whole number too long to be read, the one
that comes first counts.
-/

namespace TraitFactory.Toml

abbrev Path := List String

/-- What is not there makes the text malformed. -/
def require {α : Type} : Option α → Except Cause α
  | some x => .ok x
  | none => .error .malformedToml

/-! ## Keys -/

def isBareKeyChar (c : Char) : Bool := c.isAlphanum || c = '-' || c = '_'

def readKeyPart (cs : Rest) : Option (String × Rest) :=
  match cs with
  | [] => none
  | c :: _ =>
    if isBareKeyChar c then
      some (String.ofList (cs.takeWhile isBareKeyChar), cs.dropWhile isBareKeyChar)
    else readLineString cs

/-- A key: parts with dots between them. Each takes a character, so `fuel` is the text's
length. -/
def readKeyParts : Nat → Path → Rest → Option (Path × Rest)
  | 0, _, _ => none
  | fuel + 1, acc, cs => do
    let (part, cs) ← readKeyPart cs
    match skipSpace cs with
    | '.' :: cs => readKeyParts fuel (part :: acc) (skipSpace cs)
    | cs => return ((part :: acc).reverse, cs)

def readKey (cs : Rest) : Option (Path × Rest) := readKeyParts (cs.length + 1) [] cs

/-! ## Comments -/

/-- Skips a comment up to the end of its line. -/
def skipComment (cs : Rest) : Option Rest :=
  match cs with
  | '#' :: cs =>
    if (cs.takeWhile (· ≠ '\n')).any isControl then none else some (cs.dropWhile (· ≠ '\n'))
  | cs => some cs

/-- Skips what may stand between the items of a list. Each round takes a character. -/
def skipFiller : Nat → Rest → Option Rest
  | 0, cs => some cs
  | fuel + 1, cs => do
    match cs.dropWhile isSpaceOrNewline with
    | '#' :: cs => skipFiller fuel (← skipComment ('#' :: cs))
    | cs => return cs

def skipAllFiller (cs : Rest) : Option Rest := skipFiller (cs.length + 1) cs

/-! ## Values -/

/-- Whether a path lies on or below one of some paths. -/
def isUnder (roots : List Path) (path : Path) : Bool := roots.any fun r => r.isPrefixOf path

def isCompound : Toml → Bool
  | .list _ | .table _ => true
  | _ => false

/-- Splits a key into the path of its table and its last part. -/
def splitKey (key : Path) : Path × String := (key.dropLast, key.getLast?.getD "")

/-- A number. Only in decimal is the length of whole numbers limited. -/
def readLimited (cs : Rest) : Except Cause (Toml × Rest) :=
  match readBased cs, readNumber cs with
  | none, some (.int n, rest) =>
    if Number.isWritable n then .ok (.int n, rest)
    else .error (.unreadable (Nat.toDigits 10 n.natAbs).length)
  | _, number => require number

def readScalar (cs : Rest) : Except Cause (Toml × Rest) :=
  match cs with
  | 't' :: 'r' :: 'u' :: 'e' :: cs => .ok (.bool true, cs)
  | 'f' :: 'a' :: 'l' :: 's' :: 'e' :: cs => .ok (.bool false, cs)
  | c :: _ =>
    if c = '"' || c = '\'' then require ((readString cs).map fun r => (.text r.1, r.2))
    else
      match readDate cs with
      | some outcome => require outcome
      | none =>
        match readTime cs with
        | some rest => .ok (.time, rest)
        | none => readLimited cs
  | [] => .error .malformedToml

mutual

/-- A value. Each level of nesting takes a character, so `fuel` is at most the text's length. -/
def readValue : Nat → Rest → Except Cause (Toml × Rest)
  | 0, _ => .error .malformedToml
  | fuel + 1, cs =>
    match cs with
    | '[' :: cs => do
      match ← require (skipAllFiller cs) with
      | ']' :: cs => return (.list [], cs)
      | cs =>
        let (items, cs) ← readItems fuel [] cs
        return (.list items, cs)
    | '\x7b' :: cs => do
      match skipSpace cs with
      | '\x7d' :: cs => return (.table [], cs)
      | cs =>
        let (entries, cs) ← readInline fuel [] [] cs
        return (.table entries, cs)
    | cs => readScalar cs

def readItems : Nat → List Toml → Rest → Except Cause (List Toml × Rest)
  | 0, _, _ => .error .malformedToml
  | fuel + 1, acc, cs => do
    let (v, cs) ← readValue fuel cs
    match ← require (skipAllFiller cs) with
    | ']' :: cs => return ((v :: acc).reverse, cs)
    | ',' :: cs =>
      match ← require (skipAllFiller cs) with
      | ']' :: cs => return ((v :: acc).reverse, cs)
      | cs => readItems fuel (v :: acc) cs
    | _ => throw .malformedToml

/-- A key and its value. -/
def readPair : Nat → Rest → Except Cause ((Path × Toml) × Rest)
  | 0, _ => .error .malformedToml
  | fuel + 1, cs => do
    let (key, cs) ← require (readKey cs)
    match cs with
    | '=' :: cs =>
      let (v, cs) ← readValue fuel (skipSpace cs)
      return ((key, v), cs)
    | _ => throw .malformedToml

/-- The entries of a table written in one piece. What is `closed` takes no more keys. -/
def readInline : Nat → List Path → Entries → Rest → Except Cause (Entries × Rest)
  | 0, _, _, _ => .error .malformedToml
  | fuel + 1, closed, entries, cs => do
    let ((key, v), cs) ← readPair fuel cs
    if isUnder closed key then throw .malformedToml
    else
      let (parent, last) := splitKey key
      let entries ← require (modifyAt false (addEntry last v) parent entries)
      match skipSpace cs with
      | '\x7d' :: cs => return (entries, cs)
      | ',' :: cs =>
        let closed := if isCompound v then key :: closed else closed
        readInline fuel closed entries (skipSpace cs)
      | _ => throw .malformedToml

end

/-! ## Documents -/

/-- **A document while it is read**: the tables so far, the header in force, the paths whose
tables take no more keys, those that no header may open again, and those that become so at the
next header. -/
structure Document where
  entries : Entries := []
  header : Path := []
  closed : List Path := []
  opened : List Path := []
  pending : List Path := []
  deriving Repr

namespace Document

/-- The tables that a dotted key passes through. -/
def pathsThrough (d : Document) (key : Path) : List Path :=
  (List.range (key.length - 1)).map fun i => d.header ++ key.take (i + 1)

def addPair (d : Document) (key : Path) (v : Toml) : Option Document := do
  let through := d.pathsThrough key
  let (parent, last) := splitKey key
  let parent := d.header ++ parent
  if through.any d.opened.contains || isUnder d.closed parent then none
  else
    let entries ← modifyAt true (addEntry last v) parent d.entries
    return { d with
      entries := entries
      pending := through ++ d.pending
      closed := if isCompound v then (d.header ++ key) :: d.closed else d.closed }

/-- What a header before this one left pending comes into force. -/
def settle (d : Document) : Document :=
  { d with opened := d.pending ++ d.opened, pending := [] }

/-- Opens a table. -/
def openTable (d : Document) (key : Path) : Option Document := do
  if d.opened.contains key || isUnder d.closed key then none
  else
    let entries ← modifyAt true some key d.entries
    return { d with entries := entries, header := key, opened := key :: d.opened }

/-- Opens one more table of a list, below which all may be opened anew. -/
def openListTable (d : Document) (key : Path) : Option Document := do
  if isUnder d.closed key then none
  else
    let (parent, last) := splitKey key
    let entries ← modifyAt true (appendTable last) parent d.entries
    let keep := fun (p : Path) => !key.isPrefixOf p
    return { d with
      entries := entries
      header := key
      opened := key :: d.opened.filter keep
      closed := d.closed.filter keep }

/-- One statement. -/
def statement (d : Document) (cs : Rest) : Except Cause (Document × Rest) :=
  match cs with
  | '[' :: '[' :: cs => do
    let (key, cs) ← require (readKey (skipSpace cs))
    match cs with
    | ']' :: ']' :: cs => return (← require (d.settle.openListTable key), cs)
    | _ => throw .malformedToml
  | '[' :: cs => do
    let (key, cs) ← require (readKey (skipSpace cs))
    match cs with
    | ']' :: cs => return (← require (d.settle.openTable key), cs)
    | _ => throw .malformedToml
  | cs => do
    let ((key, v), cs) ← readPair (2 * cs.length + 2) cs
    return (← require (d.addPair key v), cs)

/-- Line after line. Each takes a character, so `fuel` is the text's length. -/
def lines : Nat → Document → Rest → Except Cause Document
  | 0, _, _ => .error .malformedToml
  | fuel + 1, d, cs =>
    match skipSpace cs with
    | [] => .ok d
    | '\n' :: cs => lines fuel d cs
    | cs => do
      let (d, cs) ← match cs with
        | '#' :: _ => pure (d, cs)
        | cs => d.statement cs
      match ← require (skipComment (skipSpace cs)) with
      | [] => return d
      | '\n' :: cs => lines fuel d cs
      | _ => throw .malformedToml

end Document

/-- Line ends of any kind become newlines. -/
def normalizeLines : List Char → List Char
  | '\r' :: '\n' :: cs => '\n' :: normalizeLines cs
  | '\r' :: cs => '\n' :: normalizeLines cs
  | c :: cs => c :: normalizeLines cs
  | [] => []

/-- **Reads a document.** -/
def read (s : String) : Except Cause Entries :=
  let cs := normalizeLines s.toList
  (Document.lines (cs.length + 1) {} cs).map (·.entries)

end TraitFactory.Toml
