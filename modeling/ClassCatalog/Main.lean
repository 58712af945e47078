import ClassCatalog.CommandLine.Paths

/-!
# The program

Loads what a run can look at from the real disk, runs the command line on it, and carries the changes
over to the real disk.
-/

namespace ClassCatalog.CommandLine

/-- A time of the real disk in nanoseconds since 1970. -/
def nanoseconds (seconds : Int) (nanos : UInt32) : Int := seconds * 1000000000 + nanos.toNat

/-- Loads what is at a path, without what is below it. -/
def loadNode (d : Disk) (path : String) : IO Disk := do
  match d.locate path with
  | .error _ => return d
  | .ok place =>
    try
      let metadata ← ((← IO.currentDir) / path).metadata
      let modified := nanoseconds metadata.modified.sec metadata.modified.nsec
      match metadata.type with
      | .dir => return d.put place (.directory modified)
      | _ =>
        let bytes ← IO.FS.readBinFile path
        return d.put place (.file bytes.toList modified)
    catch _ => return d

/-- Loads what is at and below a path. -/
partial def loadTree (d : Disk) (path : String) : IO Disk := do
  let mut d ← loadNode d path
  if d.isDirectory path then
    for entry in ← ((← IO.currentDir) / path).readDir do
      d ← loadTree d (FilePath.join path entry.fileName)
  return d

/-- Loads what is at and below a path, the directories on the way to it and their ignore rules. -/
def loadPath (d : Disk) (path : String) : IO Disk := do
  let mut d := d
  for step in way path do
    d ← loadNode d step
    if d.isDirectory step then
      d ← loadNode d (FilePath.join step Disk.ignoreFileName)
  loadTree d path

/-- Loads what a run can look at. -/
def loadDisk (targets : List String) : IO Disk := do
  let now ← IO.monoNanosNow
  let mut d := (Disk.blank now).put Place.root (.directory now)
  for path in [".", "/", Disk.ignoreFileName] do
    d ← loadNode d path
  for path in targets do
    d ← loadPath d path
  return d

/-- Writes a file in one step. -/
def replaceFile (path : String) (bytes : Bytes) : IO Unit := do
  let fresh := path ++ ".new"
  IO.FS.writeBinFile fresh (ByteArray.mk bytes.toArray)
  IO.FS.rename fresh path

/-- Carries what is new or changed over to the real disk. -/
def saveNode (before : Disk) (key : String) (n : DiskNode) : IO Unit := do
  match before.nodes.find? key, n with
  | some (.directory _), .directory _ => return
  | _, .directory _ => IO.FS.createDirAll key
  | some (.file old _), .file bytes _ => unless old == bytes do replaceFile key bytes
  | _, .file bytes _ => replaceFile key bytes

/-- Carries the changes of a disk over to the real one. -/
def saveDisk (before after : Disk) : IO Unit := do
  for (key, n) in after.nodes.entries do
    saveNode before key n
  for (key, n) in before.nodes.entries.reverse do
    unless after.nodes.contains key do
      match n with
      | .file .. => IO.FS.removeFile key
      | .directory _ => IO.FS.removeDir key

/-- The variables that a run looks at. -/
def readVariables : IO (List (String × String)) := do
  let mut found : List (String × String) := []
  for name in EngineOptions.variableNames do
    if let some value ← IO.getEnv name then
      found := (name, value) :: found
  return found

end ClassCatalog.CommandLine

open ClassCatalog.CommandLine in
/-- Runs the command line. -/
def main (args : List String) : IO UInt32 := do
  let settings ← readVariables
  let lookup (name : String) : Option String := settings.lookup name
  let start ← IO.monoMsNow
  let before ← loadDisk (paths lookup args)
  let (outcome, after) := run lookup args before
  saveDisk before after
  let stop ← IO.monoMsNow
  IO.print (outcome.output (stop - start))
  IO.eprint outcome.errors
  return UInt32.ofNat outcome.code
