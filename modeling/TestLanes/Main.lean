import TestLanes.CommandLine.Run
import TestLanes.Files.Change

/-!
# The program

Reads what an invocation is about from the disk, runs it, and then does what it has changed.

This is the only module that does anything.  It takes over the parts of the real disk that the
invocation names into a `Disk`, lets `CommandLine.run` compute what comes of it, carries the changes
out step by step, and prints the two texts.  An output that cannot be written is known only after
the attempt, so the run is then repeated with an output that takes nothing, for the code and the
log.
-/

namespace TestLanes.CommandLine

open Files (Disk Entry Change)

/-- Reads an entry with all that is in it; without their contents if only names matter. -/
partial def readEntry (namesOnly : Bool) (path : String) : IO Entry := do
  let here ← IO.FS.realPath path
  if ← here.isDir then
    let mut entries : Files.Entries := []
    for e in ← here.readDir do
      entries := Files.put e.fileName (← readEntry namesOnly (Files.join path e.fileName)) entries
    return .directory entries
  else if namesOnly then return .file ⟨#[]⟩
  else return .file (← IO.FS.readBinFile path)

/-- Puts an entry at a path of a disk. -/
def graft (d : Disk) (path : String) (e : Entry) : Disk :=
  match (Files.pieces path).reverse.dropWhile Files.isFiller with
  | [] => { d with root := e }
  | name :: front =>
    let (_, d') := d.makeDirectories (String.intercalate "/" front.reverse ++ "/")
    match d'.way (String.intercalate "/" front.reverse ++ "/") with
    | .ok way => d'.alter way (Files.put name e)
    | .error _ => d'

/-- What stands at a path of the disk, without anything that is in it; none if that is nothing. -/
def readOutline (path : String) : IO (Option Entry) := do
  try
    let here ← IO.FS.realPath path
    return some (if ← here.isDir then .directory [] else .file ⟨#[]⟩)
  catch _ => return none

/-- Takes over the directories that lead to a path, as far as they are there. -/
def takeOverWay (d : Disk) (path : String) : IO Disk := do
  let ps := (Files.pieces path).filter (!Files.isFiller ·)
  let mut d := d
  for n in List.range ps.length do
    let front := "/" ++ String.intercalate "/" (ps.take n)
    if !(d.entry front).isOk then
      if let some e ← readOutline front then d := graft d front e
  return d

/-- Takes over what is at a path, with the way to it. -/
def takeOver (namesOnly : Bool) (d : Disk) (path : String) : IO Disk := do
  let d ← takeOverWay d path
  try return graft d path (← readEntry namesOnly path) catch _ => return d

def perform : Change → IO Unit
  | .makeDirectory path => IO.FS.createDirAll path
  | .remove path => IO.FS.removeFile path
  | .writeFile path content => do
    IO.FS.writeBinFile (path ++ ".tmp") content
    IO.FS.rename (path ++ ".tmp") path

def readEnvironment : IO Environment :=
  environmentNames.filterMapM fun name => do
    return (← IO.getEnv name).map (name, ·)

/-- The disk as far as an invocation is about it. -/
def readDisk (i : Invocation) (current : String) : IO Disk := do
  let absolute (path : String) : String := Files.join current path
  let d : Disk := ⟨.directory [], (Files.pieces current).filter (!Files.isFiller ·)⟩
  let d ← takeOver true d (absolute (i.root d))
  let d ← takeOver false d (absolute i.historyDirectory)
  let settings := absolute (i.settingsFile.getD (Files.join (i.root d) Settings.usualPath))
  let d ← takeOver false d settings
  let d ← takeOver false d (settings ++ ".toml")
  match (i.setup d).value with
  | .ok setup => takeOver false d (absolute setup.directory)
  | .error _ => return d

def readCurrent : IO (Option String) := do
  try return some (toString (← IO.currentDir)) catch _ => return none

/-- A path that leads to the current directory even where its own path cannot be determined. -/
def wayToCurrent : String := "/proc/self/cwd"

/-- The disk that an invocation starts from; without one there is nothing to look at. -/
def startingDisk (args : List String) (env : Environment) (current : Option String) : IO Disk := do
  match Invocation.read args env with
  | .ok i => readDisk i (current.getD wayToCurrent)
  | .error _ => return ⟨.directory [], []⟩

end TestLanes.CommandLine

open TestLanes TestLanes.CommandLine in
/-- Runs the program with arguments, and gives its exit code. -/
def main (args : List String) : IO UInt32 := do
  let env ← readEnvironment
  let output ← IO.getStdout
  let errors ← IO.getStderr
  let current ← readCurrent
  let disk ← startingDisk args env current
  let around : Surroundings := {
    output := ← output.isTty
    errors := ← errors.isTty
    currentDirectory := if current.isSome then none else some .unknown }
  let r := CommandLine.run args env around disk
  try
    (Files.changes "/" (some disk.root) r.disk.root).forM perform
  catch e =>
    errors.putStr (r.errors ++ "error: " ++ toString e ++ "\n")
    return codeWrite.toUInt32
  let whole ← try output.putStr r.output; output.flush; pure true catch _ => pure false
  let r := if whole then r else CommandLine.run args env { around with room := some 0 } disk
  errors.putStr r.errors
  return r.code.toUInt32
