import RefStore.Disk.Directory
import RefStore.Survey

/-!
# Command line

Opens the store that the environment names, recovers it if it was not closed, and prints what it
holds. The directory is read before and written after.
-/

namespace RefStore.Main

def readDirectory (directory : String) : IO Disk := do
  IO.FS.createDirAll directory
  let mut files := #[]
  for entry in ← (← IO.FS.realPath directory).readDir do
    if !(← entry.path.isDir) then
      files := files.push (entry.fileName, ← IO.FS.readBinFile entry.path)
  return Disk.ofFiles files.toList

def writeDirectory (directory : String) (before after : Disk) : IO Unit := do
  for (name, bytes) in after.files do
    IO.FS.writeBinFile (directory ++ "/" ++ name) bytes
  for (name, _) in before.files do
    if !(after.files.any fun file => file.1 = name) then
      IO.FS.removeFile (directory ++ "/" ++ name)

def fail (message : String) : IO UInt32 := do
  IO.eprintln message
  return 1

def runWith (settings : Settings) : IO UInt32 := do
  IO.println ("Loaded configuration: " ++ settings.text)
  let before ← readDirectory settings.directory
  let (result, after) := Store.inspect settings .top before
  writeDirectory settings.directory before after
  match result with
  | .ok (report, clusters) =>
    if report.isNeeded then IO.println report.text
    for cluster in clusters do IO.println cluster.text
    return 0
  | .error (.error cause) => fail cause.message
  | .error (.fault _) => fail "the files of the store cannot be used"

def environment : IO (String → Option String) := do
  let names := [Settings.directoryVariable, Settings.pageSizeVariable, Settings.poolPagesVariable,
    Settings.syncVariable]
  let values ← names.mapM fun name => return (name, ← IO.getEnv name)
  return fun name => (values.lookup name).join

def run : IO UInt32 := do
  match Settings.ofVariables (← environment) with
  | .ok settings => runWith settings
  | .error cause => fail ("Failed to load configuration: " ++ cause.message)

end RefStore.Main

def main : IO UInt32 := RefStore.Main.run
