import TraitFactory.Failure
import TraitFactory.Folder

/-!
# Making folders

A file is written at a path whose folders are made where they are missing. What stands in the way
is told of with the path at which it was met.
-/

namespace TraitFactory

/-- The words of the system on a problem, with its number. -/
def FileProblem.words : FileProblem → String
  | .missing => "[Errno 2] No such file or directory"
  | .isFile => "[Errno 17] File exists"
  | .notFolder => "[Errno 20] Not a directory"
  | .isFolder => "[Errno 21] Is a directory"
  | .tooLong => "[Errno 36] File name too long"
  | .noPath => "embedded null byte"
  | .unwritable => "surrogates not allowed"

/-- The name under which a problem is reported. -/
def FileProblem.kind : FileProblem → String
  | .missing => "FileNotFoundError"
  | .isFile => "FileExistsError"
  | .notFolder => "NotADirectoryError"
  | .isFolder => "IsADirectoryError"
  | .tooLong => "OSError"
  | .noPath => "ValueError"
  | .unwritable => "UnicodeEncodeError"

/-- What is raised where a path cannot be used. -/
def Cause.atPath (p : FileProblem) (path : String) : Cause :=
  match p with
  | .noPath => .badValue p.words
  | .unwritable => .notBytes
  | p => .other p.kind (p.words ++ ": " ++ Text.quoted path)

namespace PathName

/-- The path of what holds what is at a path; nothing holds the last of them. -/
def parent (p : PathName) : PathName := { p with parts := p.parts.dropLast }

end PathName

namespace Folder

/-- A folder with one more in it. -/
def addFolder (f : Folder) (p : PathName) : Folder :=
  { f with entries := f.entries ++ [(p.straight, .folder)] }

/-- Makes a folder in one that is there, unless it is there itself. -/
def makeFolder (f : Folder) (p : PathName) : Except Cause Folder :=
  match f.find p with
  | .ok .folder => .ok f
  | .ok (.file _) => .error (.atPath .isFile p.text)
  | .error .missing => .ok (f.addFolder p)
  | .error problem => .error (.atPath problem p.text)

/-- **Makes a folder with all that it lies in.** Of a path only so much is made as nothing stands
in the way of. -/
def makeFolders (f : Folder) (p : PathName) : Except Cause Folder :=
  match f.find p with
  | .error .missing =>
    if p.parts = [] then .error (.atPath .missing p.text)
    else do makeFolder (← makeFolders f p.parent) p
  | _ => makeFolder f p
termination_by p.parts.length
decreasing_by
  rename_i h
  have := List.length_pos_iff.2 h
  simp only [PathName.parent, List.length_dropLast]
  omega

/-- **Makes what a file lies in**, where a file can be written to then. The file itself is named
by its whole path. -/
def makeRoom (f : Folder) (p : PathName) : Except Cause Folder := do
  let f ← f.makeFolders p.parent
  match f.find p.straight with
  | .ok .folder => throw (.atPath .isFolder (p.straight.below f.location).text)
  | .ok (.file _) | .error .missing => return f
  | .error problem => throw (.atPath problem (p.straight.below f.location).text)

/-- A folder that is there is left as it is. -/
theorem makeFolders_of_find {f : Folder} {p : PathName} (h : f.find p = .ok .folder) :
    f.makeFolders p = .ok f := by
  rw [makeFolders, h]
  simp [makeFolder, h]

end Folder

end TraitFactory
