import RefStore.Checksum
import RefStore.Fields
import RefStore.Storage.Error

/-!
# File catalog

The names of the data files of a directory by id, and the next id to hand out. The catalog is one
small file, written in full under another name and renamed.
-/

namespace RefStore

structure Catalog where
  nextId : FileId
  names : Std.TreeMap FileId String

inductive CatalogError where
  | truncated | checksumMismatch | truncatedEntry | truncatedName | nameNotText
  deriving DecidableEq, Repr

namespace Catalog

def fileName : String := "files.map"

def temporaryName : String := "files.map.tmp"

def longestName : Nat := 65535

def empty : Catalog := ⟨0, ∅⟩

def entryBytes (entry : FileId × String) : List UInt8 :=
  let text := Fields.ofText entry.2
  Word.bytes entry.1 ++ Word.bytes (UInt16.ofNat text.length) ++ text

def body (c : Catalog) : List UInt8 :=
  Word.bytes c.nextId ++ Word.bytes (UInt32.ofNat c.names.size) ++
    c.names.toList.flatMap entryBytes

def encode (c : Catalog) : List UInt8 := c.body ++ Word.bytes (Checksum.crc32 c.body)

def entries : Nat → List UInt8 → Except CatalogError (List (FileId × String))
  | 0, _ => .ok []
  | n + 1, bs =>
    match Fields.take? 6 bs with
    | none => .error .truncatedEntry
    | some (entry, bs) =>
      let length : UInt16 := Word.ofBytes (entry.drop 4)
      match Fields.take? length.toNat bs with
      | none => .error .truncatedName
      | some (text, bs) =>
        match String.fromUTF8? text.toByteArray with
        | none => .error .nameNotText
        | some name => do
          let more ← entries n bs
          return (Word.ofBytes (entry.take 4), name) :: more

/-- Of two entries with one id the later one counts. Bytes after the entries are not looked at. -/
def decode (bs : List UInt8) : Except CatalogError Catalog := do
  if bs.length < 12 then throw .truncated
  let body := bs.take (bs.length - 4)
  let stored : UInt32 := Word.ofBytes (bs.drop (bs.length - 4))
  if Checksum.crc32 body ≠ stored then throw .checksumMismatch
  let count : UInt32 := Word.ofBytes ((body.drop 4).take 4)
  let all ← entries count.toNat (body.drop 8)
  return ⟨Word.ofBytes (body.take 4), all.foldl (fun names e => names.insert e.1 e.2) ∅⟩

/-- The lowest id with a name. -/
def idOf? (c : Catalog) (name : String) : Option FileId :=
  (c.names.toList.find? fun e => e.2 = name).map Prod.fst

def reserve (c : Catalog) : FileId × Catalog := (c.nextId, { c with nextId := c.nextId + 1 })

def insert (c : Catalog) (file : FileId) (name : String) : Catalog :=
  ⟨max c.nextId (file + 1), c.names.insert file name⟩

def erase (c : Catalog) (file : FileId) : Catalog := { c with names := c.names.erase file }

def load (directory : Path) : Task Disk StorageError Catalog := do
  let path := directory.join fileName
  if (← Disk.exists? path) then
    let node ← Disk.openFile path
    let bytes ← Disk.readAll node
    match decode (Block.toList bytes) with
    | .ok c => return c
    | .error cause => refuse (.corruption (fileName ++ ": " ++ reason cause))
  else return empty
where
  reason : CatalogError → String
    | .truncated => "truncated"
    | .checksumMismatch => "checksum mismatch"
    | .truncatedEntry => "truncated entry"
    | .truncatedName => "truncated name"
    | .nameNotText => "name is not UTF-8"

def save (c : Catalog) (directory : Path) : Task Disk StorageError Unit := do
  let temporary := directory.join temporaryName
  let node ← Disk.createOrClear temporary
  Disk.writeAt node 0 (Block.ofList c.encode)
  Disk.sync node
  Disk.renameFile temporary (directory.join fileName)

end Catalog

end RefStore
