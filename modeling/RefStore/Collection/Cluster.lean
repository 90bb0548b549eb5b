import RefStore.Decimal
import RefStore.Sizes.SizeMap
import RefStore.Tree.Basic

/-!
# Clusters

All collections of a cluster share one tree and one size map. The files of both are named by the
number of the cluster.
-/

namespace RefStore

abbrev ClusterId := Int32

structure ClusterStorage where
  cluster : ClusterId
  tree : Tree
  sizes : SizeMap
  deriving DecidableEq, Repr

namespace Cluster

def stem : String := "global_collection_"

def componentName (cluster : ClusterId) : String :=
  stem ++ String.ofList (Decimal.ofInt cluster.toInt)

/-- The cluster whose tree goes by a file name. -/
def ofTreeFileName? (fileName : String) : Option ClusterId :=
  let cs := fileName.toList
  let start := stem.toList
  let stop := Tree.extension.toList
  let rest := cs.drop start.length
  if start.isPrefixOf cs ∧ stop.isSuffixOf rest then
    Decimal.int32? (rest.take (rest.length - stop.length))
  else none

def storage (cluster : ClusterId) : ClusterStorage :=
  ⟨cluster, .named (componentName cluster), .named (componentName cluster)⟩

end Cluster

end RefStore
