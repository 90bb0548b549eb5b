import RefStore.Collection.Cluster
import RefStore.Collection.Pointer

/-!
# Registry of cluster storages

The registry knows which storage a cluster has, and by which tree file it is found. Storages keep
their number after they are unregistered, since handles to them may be about. It also counts the
ids of collections, and remembers whether access is prohibited.
-/

namespace RefStore

/-- The number of a storage in the order of registration. -/
abbrev StorageId := Nat

structure Registry where
  prohibited : Bool
  storages : List ClusterStorage
  registered : Std.TreeMap FileId StorageId
  clusters : Std.TreeMap ClusterId FileId
  counter : Int64

/-- How to take back a step of an operation that is given up. -/
inductive Undo where
  | unregister (cluster : ClusterId) (file : FileId)
  | register (cluster : ClusterId) (file : FileId) (storage : StorageId)
  /-- A step of the caller's own. -/
  | step (label : String)
  deriving DecidableEq, Repr

def Undo.label? : Undo → Option String
  | .step label => some label
  | _ => none

namespace Registry

def empty : Registry := ⟨false, [], ∅, ∅, 0⟩

def registeredId? (r : Registry) (cluster : ClusterId) : Option StorageId :=
  r.clusters[cluster]?.bind fun file => r.registered[file]?

def storage? (r : Registry) (cluster : ClusterId) : Option ClusterStorage :=
  (r.registeredId? cluster).bind fun id => r.storages[id]?

def clusterIds (r : Registry) : List ClusterId := r.clusters.keys

def enroll (r : Registry) (cluster : ClusterId) (file : FileId) (id : StorageId) : Registry :=
  { r with clusters := r.clusters.insert cluster file, registered := r.registered.insert file id }

def withdraw (r : Registry) (cluster : ClusterId) (file : FileId) : Registry :=
  { r with clusters := r.clusters.erase cluster, registered := r.registered.erase file }

/-- The registry with a new storage, found by the file of its tree. -/
def register (r : Registry) (s : ClusterStorage) : Registry :=
  { r with storages := r.storages ++ [s] }.enroll s.cluster s.tree.component.file r.storages.length

/-- The storage that a pointer leads to. -/
def idFor? (r : Registry) (p : CollectionPointer) : Option StorageId := do
  let id ← r.registered[p.file]?
  let s ← r.storages[id]?
  if s.cluster = p.cluster then some id else none

def close (r : Registry) : Registry := { r with registered := ∅, clusters := ∅ }

def undo (r : Registry) : Undo → Registry
  | .unregister cluster file => r.withdraw cluster file
  | .register cluster file id => r.enroll cluster file id
  | .step _ => r

end Registry

end RefStore
