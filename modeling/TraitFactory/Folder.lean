import TraitFactory.Text.Code

/-!
# Folders

The files of a folder, as far as they are read: each has a path and holds bytes, or is a folder
itself.
-/

namespace TraitFactory

/-- **A path**: its parts without those that mean nothing, and the slashes before them. With
slashes a path starts at the top of all folders. -/
structure PathName where
  parts : List String
  slashes : String := ""
  deriving DecidableEq, Repr

namespace PathName

/-- The slashes that a path keeps: two where it starts with just two, and else at most one. -/
def slashesOf (s : String) : String :=
  if s.startsWith "//" && !s.startsWith "///" then "//"
  else if s.startsWith "/" then "/"
  else ""

def ofText (s : String) : PathName where
  parts := (s.splitOn "/").filter fun part => part ≠ "" && part ≠ "."
  slashes := slashesOf s

def isAbsolute (p : PathName) : Bool := !p.slashes.isEmpty

/-- The path of no parts is the folder itself. -/
def text (p : PathName) : String :=
  if !p.isAbsolute && p.parts.isEmpty then "." else p.slashes ++ "/".intercalate p.parts

def append (p : PathName) (part : String) : PathName := { p with parts := p.parts ++ [part] }

/-- Parts in which nothing leads back: each part that does takes the one before it away. At the
start of an absolute path there is nothing to take away. -/
def straighten (absolute : Bool) : List String → List String → List String
  | done, [] => done.reverse
  | [], ".." :: parts => straighten absolute (if absolute then [] else [".."]) parts
  | d :: done, ".." :: parts =>
    straighten absolute (if d = ".." then ".." :: d :: done else done) parts
  | done, part :: parts => straighten absolute (part :: done) parts

/-- A path without parts that lead back. -/
def straight (p : PathName) : PathName := { p with parts := straighten p.isAbsolute [] p.parts }

/-- The last part. -/
def name (p : PathName) : String := p.parts.getLast?.getD ""

/-- Halves that stand for the bytes of a name that are no text begin here. -/
def firstByteHalf : Nat := 0xDC80

/-- The bytes that a code takes in a path; most halves can be in no path. -/
def codeSize? : Text.Code → Option Nat
  | .char c => some c.utf8Size
  | c => if firstByteHalf ≤ c.toNat && c.toNat < firstByteHalf + 128 then some 1 else none

/-- The bytes that a text takes in a path, if it can be in one. -/
def size? (s : String) : Option Nat := do
  return (← (Text.codes s).mapM codeSize?).foldl (· + ·) 0

/-- Whether there can be something at a path. -/
def canBe (p : PathName) : Bool := (size? p.text).isSome && !p.text.contains '\x00'

/-- The most bytes of a part. -/
def maxPart : Nat := 255

/-- The most bytes of a path. -/
def maxLength : Nat := 4095

/-- A path as seen from outside of the folder it starts in. -/
def below (p : PathName) (folder : String) : PathName :=
  if p.isAbsolute then p else { ofText folder with parts := (ofText folder).parts ++ p.parts }

end PathName

/-- What is found at a path. -/
inductive FileEntry where
  | file (bytes : ByteArray)
  | folder

/-- Why a path cannot be used. -/
inductive FileProblem where
  | missing
  | isFolder
  /-- A file is where a folder is wanted. -/
  | isFile
  /-- A part of the path that is no folder stands before others. -/
  | notFolder
  | tooLong
  /-- The path holds the character that ends every path. -/
  | noPath
  /-- The path holds what no name is written with. -/
  | unwritable
  deriving DecidableEq, Repr

/-- What is found on every system, by its parts from the top: the usual folders, the device that
is always empty, and a list of users. -/
def usualPlaces : List (List String × FileEntry) :=
  (["bin", "boot", "dev", "etc", "home", "lib", "media", "mnt", "opt", "proc", "root", "run",
    "sbin", "srv", "sys", "tmp", "usr", "var"].map fun name => ([name], .folder))
    ++ (["bin", "include", "lib", "local", "sbin", "share", "src"].map fun name =>
      (["usr", name], .folder))
    ++ (["cache", "lib", "log", "mail", "opt", "spool", "tmp"].map fun name =>
      (["var", name], .folder))
    ++ [(["dev", "null"], .file ⟨#[]⟩),
      (["etc", "passwd"], .file "root:x:0:0:root:/root:/bin/sh\n".toUTF8)]

/-- **A folder**, with the name it is shown under. -/
structure Folder where
  location : String
  entries : List (PathName × FileEntry)

namespace Folder

/-- Where folders lie, by the parts from the top. No path can spell the name of the last. -/
def place : List String := ["tmp", ""]

/-- What is at a place given by its parts from the top. The folders above a file need no
entry. -/
def entryAt (f : Folder) (parts : List String) : Option FileEntry :=
  let known := (f.entries.filter fun e => !e.1.isAbsolute).map fun e => (place ++ e.1.parts, e.2)
  let places := known ++ usualPlaces
  match places.lookup parts with
  | some e => some e
  | none =>
    if parts.isPrefixOf place || places.any fun e => parts.isPrefixOf e.1 then some .folder
    else none

/-- Goes from one place on along a path, of which every part but the last must be a folder.
Nothing lies above the top. -/
def walk (f : Folder) : List String → List String → Except FileProblem FileEntry
  | here, [] =>
    match f.entryAt here with
    | some e => .ok e
    | none => .error .missing
  | here, part :: parts =>
    match f.entryAt here with
    | some .folder =>
      if part = ".." then f.walk here.dropLast parts
      else if (PathName.size? part).any (PathName.maxPart < ·) then .error .tooLong
      else f.walk (here ++ [part]) parts
    | some (.file _) => .error .notFolder
    | none => .error .missing

/-- What is at a path. A path that has an entry of its own need not be walked along. -/
def find (f : Folder) (p : PathName) : Except FileProblem FileEntry :=
  match PathName.size? p.text with
  | none => .error .unwritable
  | some size =>
    if p.text.contains '\x00' then .error .noPath
    else if PathName.maxLength < size then .error .tooLong
    else
      match f.entries.lookup p with
      | some e => .ok e
      | none => f.walk (if p.isAbsolute then [] else place) p.parts

/-- **The bytes of a file.** -/
def read (f : Folder) (p : PathName) : Except FileProblem ByteArray := do
  match ← f.find p with
  | .file bytes => return bytes
  | .folder => throw .isFolder

/-- Whether a path is a file's. Only of a path that is too long this cannot be told. -/
def isFile (f : Folder) (p : PathName) : Except FileProblem Bool :=
  match f.find p with
  | .ok (.file _) => .ok true
  | .error .tooLong => .error .tooLong
  | _ => .ok false

end Folder

end TraitFactory
