import RefStore.Log.Record
import RefStore.Page.Overlay
import RefStore.Storage.Volume
import Std.Data.TreeSet

/-!
# Transactions

An operation in flight keeps what it changes to itself: overlays over pages, new pages, files to
add and files to delete. A transaction reads through the operation to the volume beneath. A
transaction whose operation changes nothing is a view of what is committed.
-/

namespace RefStore

/-- A page as an operation has changed it. -/
structure Draft where
  overlay : Overlay
  appended : Bool

/-- Whether the operation leaves something of the page to be stored. -/
def Draft.isChange (d : Draft) : Bool := d.appended || !d.overlay.isEmpty

structure Operation where
  id : OperationId
  drafts : Std.TreeMap FileId (Std.TreeMap PageIndex Draft)
  /-- The page counts of the files that are added or appended to. -/
  counts : Std.TreeMap FileId PageIndex
  /-- The files to add, the first one first. -/
  created : List (FileId × String)
  deleted : Std.TreeSet FileId

namespace Operation

def fresh (id : OperationId) : Operation := ⟨id, ∅, ∅, [], ∅⟩

/-- The operation of a view. -/
def none : Operation := fresh 0

def draft? (op : Operation) (file : FileId) (index : PageIndex) : Option Draft :=
  op.drafts[file]?.bind fun pages => pages[index]?

def withDraft (op : Operation) (file : FileId) (index : PageIndex) (d : Draft) : Operation :=
  { op with drafts := op.drafts.alter file fun pages => some ((pages.getD ∅).insert index d) }

/-- All drafts, by file and page. -/
def pages (op : Operation) : List (FileId × PageIndex × Draft) :=
  op.drafts.toList.flatMap fun (file, drafts) =>
    drafts.toList.map fun (index, d) => (file, index, d)

def changes (op : Operation) : List (FileId × PageIndex × Draft) :=
  op.pages.filter fun (_, _, d) => d.isChange

def isEmpty (op : Operation) : Bool :=
  op.created.isEmpty && op.deleted.isEmpty && op.changes.isEmpty

def createdId? (op : Operation) (name : String) : Option FileId :=
  (op.created.find? fun e => e.2 = name).map Prod.fst

/-- A file that was added is forgotten; any other one is noted for deletion. -/
def withoutFile (op : Operation) (file : FileId) : Operation :=
  let isNew := op.created.any fun e => e.1 = file
  { op with
    drafts := op.drafts.erase file
    counts := op.counts.erase file
    created := op.created.filter fun e => e.1 ≠ file
    deleted := if isNew then op.deleted else op.deleted.insert file }

def pageUpdate (file : FileId) (index : PageIndex) (d : Draft) : LogPayload :=
  .pageUpdate file index (d.overlay.patches.map fun p =>
    ⟨UInt32.ofNat p.offset, Block.toList p.bytes⟩)

/-- Deletions come first, so that a name that is deleted and added again is free. -/
def payloads (op : Operation) : List LogPayload :=
  op.deleted.toList.map .fileDeleted ++
    op.created.map (fun (file, name) => .fileCreated file name) ++
    op.changes.map (fun (file, index, d) => pageUpdate file index d) ++ [.commit]

def records (op : Operation) : List LogRecord := op.payloads.map fun p => ⟨op.id, p⟩

end Operation

structure Transaction where
  mounted : Mounted
  operation : Operation

instance : Part Mounted Transaction where
  get := Transaction.mounted
  put mounted t := { t with mounted }

namespace Transaction

def update (f : Operation → Operation) : Task Transaction StorageError Unit :=
  Task.change fun t => { t with operation := f t.operation }

def pageSize : Task Transaction StorageError Nat := do
  return (← Task.state).mounted.volume.pageSize

def fileExists (name : String) : Task Transaction StorageError Bool := do
  let t ← Task.state
  if (t.operation.createdId? name).isSome then return true
  match t.mounted.volume.idOf? name with
  | some id => return !t.operation.deleted.contains id
  | none => return false

def openFile (name : String) : Task Transaction StorageError FileId := do
  let t ← Task.state
  match t.operation.createdId? name with
  | some id => return id
  | none =>
    let id ← Mounted.findFile name
    if t.operation.deleted.contains id then refuse (.fileNotFound name)
    return id

/-- The id of the new file stays taken even if the operation is given up. -/
def addFile (name : String) : Task Transaction StorageError FileId := do
  if (← fileExists name) then refuse (.fileExists name)
  let id ← Mounted.reserveId
  update fun op =>
    { op with created := op.created ++ [(id, name)], counts := op.counts.insert id 0 }
  return id

def pageCount (file : FileId) : Task Transaction StorageError PageIndex := do
  let op := (← Task.state).operation
  if op.deleted.contains file then refuse (.unknownFile file)
  match op.counts[file]? with
  | some count => return count
  | none => Mounted.pageCount file

def deleteFile (file : FileId) : Task Transaction StorageError Unit := do
  let _ ← pageCount file
  update (·.withoutFile file)

/-- The index of a new zero page at the end of a file. -/
def addPage (file : FileId) : Task Transaction StorageError PageIndex := do
  let index ← pageCount file
  let size ← pageSize
  update fun op =>
    let overlay := (op.draft? file index).elim (.on (.zero size)) Draft.overlay
    { op.withDraft file index ⟨overlay, true⟩ with counts := op.counts.insert file (index + 1) }
  return index

def checkBounds (file : FileId) (index : PageIndex) : Task Transaction StorageError Unit := do
  let count ← pageCount file
  if count ≤ index then refuse (.pageOutOfBounds file index count)

/-- The page as the operation sees it, with its changes kept apart. -/
def draft (file : FileId) (index : PageIndex) : Task Transaction StorageError Draft := do
  checkBounds file index
  match (← Task.state).operation.draft? file index with
  | some d => return d
  | none => return ⟨.on (← Mounted.loadPage file index), false⟩

def loadPage (file : FileId) (index : PageIndex) : Task Transaction StorageError Page := do
  return (← draft file index).overlay.page

def writePage (file : FileId) (index : PageIndex) (writes : List Write) :
    Task Transaction StorageError Unit := do
  let d ← draft file index
  let overlay ← Task.ofChecked (d.overlay.writeAll writes)
  update (·.withDraft file index { d with overlay })

/-- Change a page by writes that are worked out from the page as it is. The page counts as touched
even if there is nothing to write. -/
def edit {α ε : Type} [Within StorageError ε] (file : FileId) (index : PageIndex)
    (f : Page → Checked ε (α × List Write)) : Task Transaction ε α := do
  let d ← (draft file index : Task Transaction StorageError Draft)
  (update (·.withDraft file index d) : Task Transaction StorageError Unit)
  let (a, writes) ← Task.ofChecked (f d.overlay.page)
  (writePage file index writes : Task Transaction StorageError Unit)
  return a

end Transaction

end RefStore
