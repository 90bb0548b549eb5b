import RefStore.Collection.Clusters
import RefStore.Tree.Update

/-!
# Collections

A collection is a bag of record references with a count for each. Its entries are those of its
cluster's tree whose keys start with its id, and a slot of the size map counts them.
-/

namespace RefStore

/-- A handle to a collection. -/
structure Collection where
  storage : StorageId
  pointer : CollectionPointer
  deriving DecidableEq, Repr

namespace Workspace

def storageAt (id : StorageId) : Task Workspace CollectionError ClusterStorage := do
  match (← Task.state).store.registry.storages[id]? with
  | some s => return s
  | none => halt .foreignHandle

/-- Steps that lead once through all collection ids, wherever they start. -/
def idRound : Nat := 0x8000000000000000

/-- The next collection id, from 1 on, that no entry of the tree holds. After the largest id the
count starts again. -/
def allocateId (tree : Tree) : Nat → Task Workspace CollectionError CollectionId
  | 0 => halt .endless
  | fuel + 1 => do
    let candidate := (← Task.state).store.registry.counter + 1
    Store.changeRegistry fun r => { r with counter := if candidate ≤ 0 then 0 else candidate }
    if candidate ≤ 0 then allocateId tree fuel
    else
      let (low, high) := Key.range candidate
      if (← onTree (tree.hasEntriesBetween low high)) then allocateId tree fuel
      else return candidate

def createCollection (cluster : ClusterId) : Task Workspace CollectionError Collection := do
  Store.checkAccess
  let id ← clusterStorage cluster
  let s ← storageAt id
  let collection ← allocateId s.tree idRound
  let slot ← onSizes s.sizes.add
  return ⟨id, ⟨s.tree.component.file, cluster, collection, slot⟩⟩

/-- The pointer of a new collection, and the session with it noted for its owner. -/
def createOwned (session : Session) (cluster : ClusterId) (owner : Option Uuid) :
    Task Workspace CollectionError (CollectionPointer × Session) := do
  let p := (← createCollection cluster).pointer
  return (p, session.record owner (some p))

/-- More entries than the pages of a tree can hold. -/
def entryBound (file : FileId) : Task Transaction TreeError Nat := do
  let pages ← match ← (Tree.steps file).attempt with
    | .ok n => pure n
    | .error _ => pure 0
  let size ← Transaction.pageSize
  return pages * (Leaf.capacity size + 1) + 1

/-- Remove the entries from `low` on, a batch at a time. -/
def removeEntries (tree : Tree) (high : Key) :
    Nat → (low : Key) → (includesLow : Bool) → Task Workspace CollectionError Unit
  | 0, _, _ => halt .endless
  | fuel + 1, low, includesLow => do
    let batch ← onTree (tree.scan ⟨low, includesLow, high, true⟩ (some 256))
    match batch.getLast? with
    | none => return ()
    | some last =>
      batch.forM fun e => do
        let _ ← onTree (tree.remove e.key)
      removeEntries tree high fuel last.key false

end Workspace

namespace Store

/-- The collection that a pointer leads to. -/
def loadCollection (p : CollectionPointer) : Task Store CollectionError Collection := do
  checkAccess
  match (← Task.state).registry.idFor? p with
  | some id => return ⟨id, p⟩
  | none => refuse (.corruptState ("no shared tree for " ++ p.text))

end Store

namespace Workspace

/-- Remove all entries of a collection and retire its slot. -/
def deleteCollection (p : CollectionPointer) : Task Workspace CollectionError Unit := do
  let c ← (Store.loadCollection p : Task Store CollectionError Collection)
  let s ← storageAt c.storage
  let (low, high) := Key.range p.collection
  removeEntries s.tree high (← onTree (entryBound s.tree.component.file)) low true
  onSizes (s.sizes.remove p.slot)

end Workspace

namespace Collection

def id (c : Collection) : CollectionId := c.pointer.collection

def key (c : Collection) (r : RecordRef) : Key := .of c.id r

/-- Insert or update an entry. The outcome is the value before. -/
def put (c : Collection) (r : RecordRef) (value : Int32) :
    Task Workspace CollectionError (Option Int32) := do
  let s ← Workspace.storageAt c.storage
  let old ← Workspace.onTree (s.tree.put (c.key r) value)
  if old.isNone then
    let _ ← Workspace.onSizes (s.sizes.increment c.pointer.slot)
  return old

/-- Remove an entry. The outcome is the value removed. -/
def remove (c : Collection) (r : RecordRef) : Task Workspace CollectionError (Option Int32) := do
  let s ← Workspace.storageAt c.storage
  let old ← Workspace.onTree (s.tree.remove (c.key r))
  if old.isSome then
    let _ ← Workspace.onSizes (s.sizes.decrement c.pointer.slot)
  return old

def get (c : Collection) (r : RecordRef) : Task Workspace CollectionError (Option Int32) := do
  let s ← Workspace.storageAt c.storage
  Workspace.onTree (s.tree.get (c.key r))

/-- The number of entries by the size map. -/
def size (c : Collection) : Task Workspace CollectionError Int32 := do
  let s ← Workspace.storageAt c.storage
  Workspace.onSizes (s.sizes.count c.pointer.slot)

/-- All entries, by record. -/
def entries (c : Collection) : Task Workspace CollectionError (List (RecordRef × Int32)) := do
  let s ← Workspace.storageAt c.storage
  let (low, high) := Key.range c.id
  let found ← Workspace.onTree (s.tree.scan (.closed low high) none)
  return found.map fun e => (e.key.record, e.value)

def first (c : Collection) : Task Workspace CollectionError (Option RecordRef) := do
  let s ← Workspace.storageAt c.storage
  let (low, high) := Key.range c.id
  return (← Workspace.onTree (s.tree.firstKeyBetween low high)).map Key.record

def last (c : Collection) : Task Workspace CollectionError (Option RecordRef) := do
  let s ← Workspace.storageAt c.storage
  let (low, high) := Key.range c.id
  return (← Workspace.onTree (s.tree.lastKeyBetween low high)).map Key.record

end Collection

end RefStore
