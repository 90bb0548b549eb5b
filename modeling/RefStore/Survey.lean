import RefStore.Store

/-!
# Surveys

What a store holds, cluster by cluster. An inspection opens the store, surveys it and closes it.
-/

namespace RefStore

structure ClusterSummary where
  cluster : ClusterId
  entries : UInt64
  buckets : Nat
  deriving DecidableEq, Repr

def ClusterSummary.text (c : ClusterSummary) : String :=
  "Cluster storage cluster_id=" ++ toString c.cluster ++ " entries=" ++ toString c.entries ++
    " buckets=" ++ toString c.buckets

namespace Store

def summary (s : ClusterStorage) : Task Workspace CollectionError ClusterSummary := do
  let entries ← Workspace.onTree s.tree.entryCount
  let buckets ← Workspace.onSizes s.sizes.bucketCount
  return ⟨s.cluster, entries, buckets⟩

/-- The registered clusters in the order of their ids. -/
def survey : Task Store CollectionError (List ClusterSummary) := do
  let registry := (← Task.state).registry
  view ((registry.clusterIds.filterMap registry.storage?).mapM summary)

/-- The disk keeps what was done to it even if something fails. -/
def inspect (settings : Settings) (directory : Path) (disk : Disk) :
    Checked StoreError (RecoveryReport × List ClusterSummary) × Disk :=
  match Store.open settings directory disk with
  | (.error cause, disk) => (.error cause, disk)
  | (.ok (s, report), _) =>
    let work : Task Store StoreError (List ClusterSummary) := do
      let clusters ← survey.mapError .collection
      close
      return clusters
    let (result, s) := work.start s
    (result.map fun clusters => (report, clusters), s.disk)

end Store

end RefStore
