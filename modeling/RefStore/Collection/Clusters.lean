import RefStore.Tree.Scan
import RefStore.Workspace

/-!
# Storage of clusters

Creating, loading and dropping the files of a cluster. What an operation registers or unregisters
counts at once and is taken back if the operation is given up.
-/

namespace RefStore

namespace Store

def checkAccess : Task Store CollectionError Unit := do
  if (← Task.state).registry.prohibited then refuse .accessProhibited

/-- Open the files of a cluster, if there are any. -/
def loadCluster (cluster : ClusterId) : Task Store CollectionError (Option StorageId) := do
  checkAccess
  let s ← Task.state
  if let some id := s.registry.registeredId? cluster then return some id
  let new := Cluster.storage cluster
  match new.tree.load? s.volume, new.sizes.load? s.volume with
  | none, _ => return none
  | some _, none =>
    refuse (.corruptState ("cluster " ++ toString cluster ++ " has a tree but no size map"))
  | some tree, some sizes =>
    changeRegistry (·.register { new with tree, sizes })
    return some s.registry.storages.length

/-- Go on after the largest collection id that a cluster's tree holds. -/
def advanceCounter (cluster : ClusterId) : Task Store CollectionError Unit := do
  if let some s := (← Task.state).registry.storage? cluster then
    if let some key ← view (Workspace.onTree s.tree.lastKey) then
      changeRegistry fun r => { r with counter := max r.counter key.collection }

/-- Load every cluster that has a tree file, and count on from the ids found there. -/
def loadExisting : Task Store CollectionError (List ClusterId) := do
  checkAccess
  let names := (← Task.state).volume.catalog.names.values
  let found ← names.filterMapM fun name => do
    match Cluster.ofTreeFileName? name with
    | none => return none
    | some cluster => return (← loadCluster cluster).map fun _ => cluster
  let loaded := found.mergeSort fun a b => decide (a ≤ b)
  (Engine.checkUsable : Task Engine StorageError Unit)
  loaded.forM advanceCounter
  return loaded

/-- No access is allowed from now on. -/
def prohibit : Task Store CollectionError Unit := changeRegistry fun r => { r with prohibited := true }

end Store

namespace Workspace

def alreadyExists (cluster : ClusterId) : CollectionError :=
  .alreadyExists ("collection storage for cluster " ++ toString cluster)

def createCluster (cluster : ClusterId) : Task Workspace CollectionError StorageId := do
  Store.checkAccess
  let registry := (← Task.state).store.registry
  if (registry.registeredId? cluster).isSome then refuse (alreadyExists cluster)
  let new := Cluster.storage cluster
  if (← onStorage (Transaction.fileExists new.tree.fileName)) then refuse (alreadyExists cluster)
  let tree ← onTree new.tree.create
  let sizes ← onSizes new.sizes.create
  Store.changeRegistry (·.register { new with tree, sizes })
  onRollback (.unregister cluster tree.component.file)
  return registry.storages.length

/-- Delete the files of a cluster. -/
def dropCluster (cluster : ClusterId) : Task Workspace CollectionError Unit := do
  Store.checkAccess
  let registry := (← Task.state).store.registry
  match registry.registeredId? cluster, registry.storage? cluster with
  | some id, some s =>
    onTree s.tree.delete
    onSizes s.sizes.delete
    let file := s.tree.component.file
    Store.changeRegistry (·.withdraw cluster file)
    onRollback (.register cluster file id)
  | _, _ => refuse (.corruptState ("cluster " ++ toString cluster ++ " has no collection storage"))

/-- The storage of a cluster, which is loaded or created if need be. Files that the operation
deletes do not count. -/
def clusterStorage (cluster : ClusterId) : Task Workspace CollectionError StorageId := do
  if let some id := (← Task.state).store.registry.registeredId? cluster then return id
  let present ← onStorage (Transaction.fileExists (Cluster.storage cluster).tree.fileName)
  if present then
    if let some id ← Store.loadCluster cluster then return id
  createCluster cluster

end Workspace

end RefStore
