import YamlQuery.Files.Change
import YamlQuery.Invocation.Run

/-!
# Main — the program

The program sees the files under the working directory, the settings of its user, and the files that
its arguments name elsewhere.  What a run changes in them is written back at its end.
-/

namespace YamlQuery.Main

/-- How deep directories are looked into. -/
def deepest : Nat := 32

/-- The places of a place and of all above it, the highest first. -/
def placesTo (place : String) : List String :=
  let names := (Path.pieces place).filter (! Path.isIdle ·)
  (List.range names.length).map fun n =>
    String.ofList (Text.join ['/'] ([] :: names.take (n + 1)))

/-- Adds directories that are not there yet. -/
def withDirectories (fs : Files) (places : List String) : Files :=
  places.foldl
    (fun fs place =>
      if fs.isDirectory place then fs
      else { fs with nodes := fs.nodes.put place .directory }) fs

/-- Adds a file, if it can be read. -/
def addFile (fs : Files) (place : String) : IO Files := do
  try
    let content ← IO.FS.readBinFile place
    return fs.put place content
  catch _ => return fs

/-- The names in a directory, each with whether it is that of a directory. -/
def list (place : String) : IO (List (String × Bool)) := do
  let entries ← (← IO.FS.realPath place).readDir
  entries.toList.mapM fun e => return (e.fileName, ← e.path.isDir)

/-- Adds a directory and what is in it. -/
def addTree : (depth : Nat) → Files → String → IO Files
  | 0, fs, _ => return fs
  | depth + 1, fs, place => do
    let found ← try list place catch _ => pure []
    let mut fs := withDirectories fs [place]
    for (name, isDirectory) in found do
      let inner := place ++ "/" ++ name
      fs ← if isDirectory then addTree depth fs inner else addFile fs inner
    return fs

/-- Adds a file that a path names, and the directories on the way to it. -/
def addNamed (fs : Files) (path : String) : IO Files := do
  try
    let dir := (← IO.FS.realPath ((Path.base? path).getD ".")).toString
    let fs := withDirectories fs (placesTo dir)
    match Path.fileName? path with
    | some name => addFile fs (dir ++ "/" ++ String.ofList name)
    | none => return fs
  catch _ => return fs

/-- The paths that an argument may hold: all of it, and what follows `@` or `=` in it. -/
def pathsIn (argument : String) : List String :=
  argument :: ((Text.cutAt (fun c => c == '@' || c == '=') argument.toList).toList.map fun (_, s) =>
    String.ofList s)

/-- The files that a run sees. -/
def loadFiles (arguments : List String) (home : String) : IO Files := do
  let current := (← IO.currentDir).toString
  let start : Files := { current }
  let mut fs ← addTree deepest (withDirectories start (placesTo current)) current
  for path in Files.settingsPath home :: arguments.flatMap pathsIn do
    fs ← addNamed fs path
  return fs

/-- All bytes of the input. -/
def readStdin : IO ByteArray := do
  let stdin ← IO.getStdin
  let mut bytes := ByteArray.empty
  unless ← stdin.isTty do
    repeat
      let more ← stdin.read 65536
      if more.isEmpty then break
      bytes := bytes ++ more
  return bytes

/-- Makes a change. -/
def make : Change → IO Unit
  | .makeDirectory place => IO.FS.createDirAll place
  | .write place content => IO.FS.writeBinFile place content
  | .remove place => IO.FS.removeFile place

/-- Runs the program and gives its code. -/
def run (arguments : List String) : IO UInt32 := do
  let home := (← IO.getEnv "HOME").getD "/"
  let before ← loadFiles arguments home
  let readsStdin := match Invocation.parse arguments with
    | .ok i => i.readsStdin
    | .error _ => false
  let r := Invocation.run arguments home (← if readsStdin then readStdin else pure .empty) before
  let stdout ← IO.getStdout
  stdout.putStr r.output
  stdout.flush
  (Files.changes before r.files).forM make
  match r.complaint with
  | some text => IO.eprintln text
  | none => pure ()
  return UInt32.ofNat r.code

end YamlQuery.Main

def main (arguments : List String) : IO UInt32 := YamlQuery.Main.run arguments
