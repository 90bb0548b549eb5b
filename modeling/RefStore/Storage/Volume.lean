import RefStore.Disk.PagedFile
import RefStore.Page.Pool
import RefStore.Storage.Catalog

/-!
# Volumes

A volume is a directory of paged files with ids, and the committed pages read from them so far.
Pages are sealed when they are written and verified when they are first read; a resident page is
not read again.
-/

namespace RefStore

structure OpenFile where
  name : String
  file : PagedFile
  resident : Std.TreeMap PageIndex Page

structure Volume where
  directory : Path
  pageSize : Nat
  poolPages : Nat
  catalog : Catalog
  files : Std.TreeMap FileId OpenFile

/-- A volume on its disk. -/
structure Mounted where
  disk : Disk
  volume : Volume

instance : Part Disk Mounted where
  get := Mounted.disk
  put disk m := { m with disk }

namespace Volume

/-- Open every file of the catalog. A new directory is made with no files. -/
def mount (directory : Path) (pageSize poolPages : Nat) : Task Disk StorageError Volume := do
  Disk.makeDirectories directory
  let catalog ← Catalog.load directory
  let files ← catalog.names.toList.foldlM openNamed (∅ : Std.TreeMap FileId OpenFile)
  let _ ← Task.ofChecked (Pool.create pageSize poolPages)
  return ⟨directory, pageSize, poolPages, catalog, files⟩
where
  openNamed (files : Std.TreeMap FileId OpenFile) (entry : FileId × String) :
      Task Disk StorageError (Std.TreeMap FileId OpenFile) := do
    let (id, name) := entry
    let path := directory.join name
    if !(← Disk.exists? path) then
      refuse (.corruption s!"registered file {name} (id {id}) is missing")
    let file ← PagedFile.open path pageSize
    return files.insert id ⟨name, file, ∅⟩

def idOf? (v : Volume) (name : String) : Option FileId := v.catalog.idOf? name

def withFile (v : Volume) (id : FileId) (f : OpenFile) : Volume :=
  { v with files := v.files.insert id f }

end Volume

namespace Mounted

def updateVolume (f : Volume → Volume) : Task Mounted StorageError Unit :=
  Task.change fun m => { m with volume := f m.volume }

def openFile (id : FileId) : Task Mounted StorageError OpenFile := do
  match (← Task.state).volume.files[id]? with
  | some f => return f
  | none => refuse (.unknownFile id)

def reserveId : Task Mounted StorageError FileId := do
  let (id, catalog) := (← Task.state).volume.catalog.reserve
  updateVolume fun v => { v with catalog }
  return id

/-- The catalog in memory changes before the one on disk. -/
def recatalog (f : Catalog → Catalog) : Task Mounted StorageError Unit := do
  updateVolume fun v => { v with catalog := f v.catalog }
  let v := (← Task.state).volume
  v.catalog.save v.directory

/-- What already stands under an unregistered name is removed. -/
def createWithId (id : FileId) (name : String) : Task Mounted StorageError Unit := do
  let v := (← Task.state).volume
  if (v.idOf? name).isSome then refuse (.fileExists name)
  let path := v.directory.join name
  if (← Disk.exists? path) then Disk.removeFile path
  let file ← PagedFile.create path v.pageSize
  let length := name.utf8ByteSize
  if Catalog.longestName < length then
    refuse (.corruption s!"file name too long: {length} bytes")
  recatalog (·.insert id name)
  updateVolume (·.withFile id ⟨name, file, ∅⟩)

def create (name : String) : Task Mounted StorageError FileId := do
  let id ← reserveId
  createWithId id name
  return id

def findFile (name : String) : Task Mounted StorageError FileId := do
  match (← Task.state).volume.idOf? name with
  | some id => return id
  | none => refuse (.fileNotFound name)

def fileName (id : FileId) : Task Mounted StorageError String := do return (← openFile id).name

def delete (id : FileId) : Task Mounted StorageError Unit := do
  let f ← openFile id
  updateVolume fun v => { v with files := v.files.erase id }
  if ((← Task.state).volume.catalog.names[id]?).isSome then recatalog (·.erase id)
  Disk.removeFile f.file.path

def pageCount (id : FileId) : Task Mounted StorageError PageIndex := do
  return (← openFile id).file.pageCount

def loadPage (id : FileId) (index : PageIndex) : Task Mounted StorageError Page := do
  let f ← openFile id
  match f.resident[index]? with
  | some page => return page
  | none =>
    if f.file.pageCount ≤ index then refuse (.pageOutOfBounds id index f.file.pageCount)
    let page ← f.file.readPage index (← Task.state).volume.pageSize
    Task.ofChecked (page.verify.mapError fun cause =>
      .corruption (f.name ++ s!" page {index}: " ++ cause.message))
    updateVolume (·.withFile id { f with resident := f.resident.insert index page })
    return page

/-- The page as it stands on disk, zero past the end, without looking at its seal. -/
def loadUnverified (id : FileId) (index : PageIndex) : Task Mounted StorageError Page := do
  let f ← openFile id
  let size := (← Task.state).volume.pageSize
  if index < f.file.pageCount then f.file.readPage index size else return .zero size

def installPage (id : FileId) (index : PageIndex) (page : Page) : Task Mounted StorageError Unit := do
  let f ← openFile id
  let stored ← Task.ofChecked page.sealed
  let file ← f.file.writePage index stored
  updateVolume (·.withFile id { f with file, resident := f.resident.insert index stored })

def sync (id : FileId) : Task Mounted StorageError Unit := do (← openFile id).file.sync

def syncAll : Task Mounted StorageError Unit := do (← Task.state).volume.files.keys.forM sync

/-- Force all files to the disk and forget the resident pages. -/
def close : Task Mounted StorageError Unit := do
  syncAll
  updateVolume fun v => { v with files := v.files.map fun _ f => { f with resident := ∅ } }

end Mounted

end RefStore
