import Std.Time.DateTime.Timestamp
import TraitFactory.CommandLine.Layout
import TraitFactory.CommandLine.Transcript
import TraitFactory.Script.Reading

/-!
# Command line

Reads the files that the arguments ask for, runs the command line on them, and writes what came
of it. A module `m` is a list of steps in the file `m.json`.
-/

namespace TraitFactory.Main

/-- What is at a path: what is there and cannot be read is taken for a folder. -/
def entryAt (path : String) : IO (Option FileEntry) := do
  try
    return some (.file (← IO.FS.readBinFile path))
  catch
    | .noFileOrDirectory _ _ _ => return none
    | _ => return some .folder

/-- The entries of a folder at some paths. -/
def entriesAt (paths : List PathName) : IO (List (PathName × FileEntry)) :=
  paths.filterMapM fun p => return (← entryAt p.text).map (p, ·)

/-- The steps of a module's file; one that is no list of steps fails when it is loaded. -/
def stepsOf (bytes : ByteArray) : List (Option Script.Step) :=
  match (Text.ofBytes? bytes.toList).map Json.read with
  | some (.ok (.list steps)) => steps.map Script.step?
  | _ => [none]

def moduleAt (name : String) : IO (Option Module) := do
  match ← entryAt (name ++ ".json") with
  | some (.file bytes) => return some ⟨name, stepsOf bytes⟩
  | _ => return none

def now : IO Moment := do
  let nanos := (← Std.Time.Timestamp.now).toNanosecondsSinceUnixEpoch.val
  return ⟨nanos / 1000000000, (nanos % 1000000000 / 1000).toNat⟩

def surroundings (args : List String) : IO Surroundings := do
  let own := [Settings.fileName, Settings.projectFileName].map PathName.ofText
  let level ← IO.getEnv Settings.logLevelVariable
  return {
    folder :=
      { location := (← IO.currentDir).toString
        entries := ← entriesAt ((CommandLine.configNamed args).toList ++ own) }
    environment := (level.map fun s => (Settings.logLevelVariable, s)).toList
    modules := ← (CommandLine.modulesNamed args).filterMapM moduleAt
    now := ← now }

/-- Adds lines to the log's file, whose folders are made where they are missing. -/
def appendLog (path : PathName) (lines : List String) : IO Unit := do
  IO.FS.createDirAll { path with parts := path.parts.dropLast }.text
  let h ← IO.FS.Handle.mk path.text .append
  lines.forM fun line => h.putStrLn line

/-- A text as it is printed. -/
def printed (s : String) : String := String.ofList (Text.spelled s)

/-- **Writes what came of a run.** -/
def report (t : Transcript) : IO UInt32 := do
  if let some path := t.logFile then appendLog path (t.written.file.map printed)
  IO.print (printed t.output)
  (t.shown.flatMap Display.lines).forM fun line => IO.println (printed line)
  t.diagnostics.forM fun line => IO.eprintln (printed line)
  if let some e := t.usage then IO.eprintln ("Error: " ++ printed e.message)
  if let some e := t.escaped then IO.eprintln (printed e.text)
  return t.exit.toUInt32

end TraitFactory.Main

def main (args : List String) : IO UInt32 := do
  let s ← TraitFactory.Main.surroundings args
  TraitFactory.Main.report (TraitFactory.CommandLine.run s args)
