import RefStore.Disk.Contents
import RefStore.Disk.Path
import RefStore.Failure
import Std.Data.TreeMap

/-!
# Disk

A disk has directories and files at places below its top. A path is followed anew at each use, part
by part, and leads on only through directories that stand at that time. A file's contents are held
by a node, so that a file that is open stays readable and writable after its name is gone. Every
change is one call. An outage lets a number of calls through, cuts the next one short and refuses
all later ones, until the disk is restarted.
-/

namespace RefStore

structure IoError where
  reason : String
  deriving DecidableEq, Repr

/-- The names that lead from the top to where something may stand. -/
abbrev Location := List String

inductive DiskEntry where
  | directory
  | file (node : Nat)
  deriving DecidableEq, Repr

/-- After `calls` more calls, one takes effect only as far as `bytes` goes, and none after it. -/
structure Outage where
  calls : Nat
  bytes : Nat
  deriving DecidableEq, Repr

structure Disk where
  entries : Std.TreeMap Location DiskEntry
  contents : Std.TreeMap Nat Contents
  nextNode : Nat
  outage : Option Outage

inductive DiskCall where
  | addDirectory (place : Location)
  | addFile (place : Location)
  | setLength (node length : Nat)
  | write (node offset : Nat) (bytes : ByteArray)
  | remove (place : Location)
  | rename (source target : Location) (node : Nat)
  | sync (node : Nat)

namespace Disk

def empty : Disk := ⟨∅, ∅, 0, none⟩

def content (disk : Disk) (node : Nat) : Contents := disk.contents.getD node .empty

def effect (disk : Disk) : DiskCall → Disk
  | .addDirectory place => { disk with entries := disk.entries.insert place .directory }
  | .addFile place =>
    { disk with
      entries := disk.entries.insert place (.file disk.nextNode)
      contents := disk.contents.insert disk.nextNode .empty
      nextNode := disk.nextNode + 1 }
  | .setLength node length =>
    { disk with contents := disk.contents.insert node ((disk.content node).resize length) }
  | .write node offset bytes =>
    { disk with contents := disk.contents.insert node ((disk.content node).overwrite offset bytes) }
  | .remove place => { disk with entries := disk.entries.erase place }
  | .rename source target node =>
    { disk with entries := (disk.entries.erase source).insert target (.file node) }
  | .sync _ => disk

/-- A write cut short writes its first bytes; any other call happens or does not. -/
def cutEffect (disk : Disk) (bytes : Nat) : DiskCall → Disk
  | .write node offset block => disk.effect (.write node offset (block.extract 0 bytes))
  | call => if bytes = 0 then disk else disk.effect call

def perform (call : DiskCall) : Task Disk IoError Unit :=
  Task.ofStep fun disk =>
    match disk.outage with
    | none => (.ok (), disk.effect call)
    | some ⟨calls + 1, bytes⟩ => (.ok (), { disk.effect call with outage := some ⟨calls, bytes⟩ })
    | some ⟨0, bytes⟩ =>
      (refuse ⟨"device failure"⟩, { disk.cutEffect bytes call with outage := some ⟨0, 0⟩ })

def restart (disk : Disk) : Disk := { disk with outage := none }

/-- The top is a directory that cannot be removed. -/
def entryAt? (disk : Disk) (place : Location) : Option DiskEntry :=
  if place = [] then some .directory else disk.entries[place]?

/-- One part further. -/
def follow (disk : Disk) (place : Location) (part : String) : Checked IoError Location :=
  match disk.entryAt? place with
  | none => refuse ⟨"not found"⟩
  | some (.file _) => refuse ⟨"not a directory"⟩
  | some .directory =>
    if Path.stays part then .ok place
    else if part = ".." then .ok place.dropLast
    else if Path.longestName < part.utf8ByteSize then refuse ⟨"name too long"⟩
    else .ok (place ++ [part])

/-- Where a path leads. It may be the place of nothing, but then in a directory. -/
def resolve (disk : Disk) (path : Path) : Checked IoError Location :=
  if path.isUsable then path.parts.foldlM disk.follow [] else refuse ⟨"invalid path"⟩

def lookup? (disk : Disk) (path : Path) : Option DiskEntry :=
  match disk.resolve path with
  | .ok place => disk.entryAt? place
  | .error _ => none

def isDirectory (disk : Disk) (path : Path) : Bool := disk.lookup? path = some .directory

def exists? (path : Path) : Task Disk IoError Bool := do
  return ((← Task.state).lookup? path).isSome

def locate (path : Path) : Task Disk IoError (Location × Option DiskEntry) := do
  let disk ← Task.state
  let place ← Task.ofChecked (disk.resolve path)
  return (place, disk.entryAt? place)

/-- The place of something new. -/
def locateNew (path : Path) : Task Disk IoError Location := do
  match ← locate path with
  | (place, none) => return place
  | (_, some _) => refuse ⟨"already exists"⟩

def locateDirectory (path : Path) : Task Disk IoError Location := do
  match ← locate path with
  | (place, some .directory) => return place
  | (_, some (.file _)) => refuse ⟨"not a directory"⟩
  | (_, none) => refuse ⟨"not found"⟩

def locateFile (path : Path) : Task Disk IoError (Location × Nat) := do
  match ← locate path with
  | (place, some (.file node)) => return (place, node)
  | (_, some .directory) => refuse ⟨"is a directory"⟩
  | (_, none) => refuse ⟨"not found"⟩

/-- A slash may follow the name of the new directory. -/
def makeDirectory (path : Path) : Task Disk IoError Unit := do
  perform (.addDirectory (← locateNew path.trimmed))

/-- The directory, after those that its path leads through, as far as they are missing. -/
def makeDirectories (path : Path) : Task Disk IoError Unit := do
  if !path.isUsable then refuse ⟨"invalid path"⟩
  for stage in path.chain do
    if !(← Task.state).isDirectory stage then makeDirectory stage

/-- A directory is removed by its name, and when it is empty. -/
def removeDirectory (path : Path) : Task Disk IoError Unit := do
  let last := path.trimmed.parts.getLast?.getD ""
  if Path.stays last ∨ last = ".." then refuse ⟨"not a name"⟩
  let place ← locateDirectory path
  if (← Task.state).entries.keys.any fun other => other.dropLast = place then
    refuse ⟨"directory not empty"⟩
  perform (.remove place)

/-- The entries of a directory, by name. -/
def list (path : Path) : Task Disk IoError (List (String × DiskEntry)) := do
  let place ← locateDirectory path
  return (← Task.state).entries.toList.filterMap fun (other, entry) =>
    if other.dropLast = place then other.getLast?.map (·, entry) else none

def openFile (path : Path) : Task Disk IoError Nat := do return (← locateFile path).2

/-- A new file, where nothing stands yet. -/
def createFile (path : Path) : Task Disk IoError Nat := do
  let place ← locateNew path
  let node := (← Task.state).nextNode
  perform (.addFile place)
  return node

def openOrCreate (path : Path) : Task Disk IoError Nat := do
  if (← exists? path) then openFile path else createFile path

def longestFile : Nat := 0x7fffffffffffffff

def setLength (node length : Nat) : Task Disk IoError Unit := do
  if longestFile < length then refuse ⟨"file too large"⟩
  perform (.setLength node length)

/-- An empty file, new or with its former contents dropped. -/
def createOrClear (path : Path) : Task Disk IoError Nat := do
  let known ← exists? path
  let node ← openOrCreate path
  if known then setLength node 0
  return node

def length (node : Nat) : Task Disk IoError Nat := do
  return ((← Task.state).content node).size

def readAll (node : Nat) : Task Disk IoError ByteArray := do
  return ((← Task.state).content node).block

/-- Exactly `length` bytes, or an error if the file ends before. -/
def readAt (node offset length : Nat) : Task Disk IoError ByteArray := do
  let c := (← Task.state).content node
  if c.size < offset + length ∧ 0 < length then refuse ⟨"unexpected end of file"⟩
  return c.slice offset length

def writeAt (node offset : Nat) (bytes : ByteArray) : Task Disk IoError Unit := do
  if longestFile < offset + bytes.size then refuse ⟨"file too large"⟩
  perform (.write node offset bytes)

def sync (node : Nat) : Task Disk IoError Unit := perform (.sync node)

def removeFile (path : Path) : Task Disk IoError Unit := do
  perform (.remove (← locateFile path).1)

/-- A file takes the name of another, which it replaces, or a new name. -/
def renameFile (source target : Path) : Task Disk IoError Unit := do
  let (old, node) ← locateFile source
  let (new, entry) ← locate target
  if entry = some .directory then refuse ⟨"is a directory"⟩
  perform (.rename old new node)

end Disk

end RefStore
