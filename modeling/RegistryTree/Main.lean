import RegistryTree.CommandLine.Run

/-!
# The program

The outer layer. It takes in the part of the disk that a command line is about, runs the command on
it, carries out what has changed, and tells how the command ended.
-/

namespace RegistryTree.Disk

/-- The text of the path to a place. -/
def textOf (place : Place) : String := "/" ++ "/".intercalate place

/-- The place of the text of a path. -/
def placeOf (text : String) : Place := (Path.ofText text).parts

/-- Takes in what stands at a place. A link counts as leading where it leads in the end, and one
that leads nowhere as leading to itself. -/
def takeEntry (files : FileSystem) (place : Place) : IO FileSystem := do
  if place = [] ∨ (files.get? place).isSome then return files
  let text := textOf place
  try
    match (← (System.mkFilePath [text]).symlinkMetadata).type with
    | .dir => return files.put place (.directory Layout.directoryMode)
    | .file => return files.put place (.file Layout.fileMode (← IO.FS.readBinFile text).toList)
    | .symlink =>
      let target ← try pure (← IO.FS.realPath text).toString catch _ => pure text
      return files.put place (.link target)
    | .other => return files
  catch _ => return files

/-- Takes in what stands on the way to a place. -/
partial def takeWay (files : FileSystem) (place : Place) : IO FileSystem := do
  let mut files := files
  for n in List.range place.length do
    let here := place.take (n + 1)
    if (files.get? here).isNone then
      files ← takeEntry files here
      match files.get? here with
      | some (.link target) =>
        if placeOf target ≠ here then files ← takeWay files (placeOf target ++ place.drop (n + 1))
      | _ => pure ()
  return files

/-- Takes in what stands at a place and below it. -/
partial def takeBelow (files : FileSystem) (place : Place) : IO FileSystem := do
  let mut files ← takeWay files place
  match files.followFrom [] place with
  | .ok found =>
    if files.isDirectoryAt found then
      for e in ← (System.mkFilePath [textOf found]).readDir do
        files ← takeBelow files (found ++ [e.fileName])
    return files
  | .error _ => return files

/-- Takes in what a request is about. -/
def take (current : Place) : CommandLine.Request → IO FileSystem
  | .build metadata package registry _ => do
    let files ← takeWay ⟨[], current⟩ current
    let files ← takeWay files (files.written (.ofText metadata))
    takeBelow files (files.written (.ofText registry) ++ [package])
  | .check path => do
    let files ← takeWay ⟨[], current⟩ current
    takeBelow files (files.written (.ofText path))
  | _ => return ⟨[], current⟩

/-- The permissions that a number stands for. -/
def rights (mode : Nat) : IO.FileRight :=
  let group (shift : Nat) : IO.AccessRight :=
    ⟨mode.testBit (shift + 2), mode.testBit (shift + 1), mode.testBit shift⟩
  ⟨group 6, group 3, group 0⟩

/-- Removes what is not there any more. -/
def removeOld (before after : FileSystem) : IO Unit :=
  before.entries.forM fun (place, entry) => do
    if (after.get? place).isNone ∧ (after.get? place.dropLast).isSome then
      if entry.isDirectory then IO.FS.removeDirAll (textOf place)
      else IO.FS.removeFile (textOf place)

/-- Makes what was not there before. -/
def makeNew (before after : FileSystem) : IO Unit :=
  after.entries.forM fun (place, entry) => do
    if before.get? place ≠ some entry then
      match entry with
      | .directory mode =>
        IO.FS.createDir (textOf place)
        IO.setAccessRights (textOf place) (rights mode)
      | .file mode content =>
        IO.FS.writeBinFile (textOf place) ⟨content.toArray⟩
        IO.setAccessRights (textOf place) (rights mode)
      | .link _ => pure ()

/-- The variables of the environment that commands know. -/
def environment : IO CommandLine.Environment :=
  ["OPMANIFEST_LOG_LEVEL", "OPMANIFEST_OUT_DIR"].filterMapM fun name => do
    return (← IO.getEnv name).map fun value => (name, value)

/-- Tells how a command ended; gives the status to end with. -/
def conclude (report : CommandLine.Report) : IO UInt32 := do
  report.told.forM fun line => IO.eprintln line
  match report.outcome with
  | .finished status output =>
    output.forM fun line => IO.println line
    return status.toUInt32
  | .badParameter parameter words =>
    IO.eprintln ("Error: Invalid value for " ++ parameter ++ ": " ++ words)
    return 2
  | .usage error =>
    IO.eprintln ("Error: " ++ error.message)
    return 2
  | .escaped failure | .untold failure =>
    IO.eprintln failure.message
    return 1

end RegistryTree.Disk

open RegistryTree in
/-- Runs a command line on the disk. -/
def main (words : List String) : IO UInt32 := do
  let environment ← Disk.environment
  let current := Disk.placeOf (← IO.currentDir).toString
  let before ← match CommandLine.request environment words with
    | .ok (_, asked) => Disk.take current asked
    | .error _ => pure ⟨[], current⟩
  let (report, after) := CommandLine.run environment words before
  Disk.removeOld before after
  Disk.makeNew before after
  Disk.conclude report
