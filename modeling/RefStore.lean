import RefStore.Main
import RefStore.Proofs.Outages
import RefStore.Proofs.TreeRuns
import RefStore.Report
import RefStore.Proofs.CatalogCodec
import RefStore.Proofs.CollectionIds
import RefStore.Proofs.CollectionRuns
import RefStore.Proofs.MirrorPages
import RefStore.Proofs.CollectionCalls
import RefStore.Proofs.CollectionFrames
import RefStore.Proofs.CollectionSizes
import RefStore.Proofs.LogCodec
import RefStore.Proofs.OverlayReads
import RefStore.Proofs.SizeMapRuns
import RefStore.Proofs.Isolation
import RefStore.Proofs.CrashAtomicity
import RefStore.Proofs.FailedInstalls
import RefStore.Proofs.ReopenedStores
import RefStore.Proofs.ClusterLoads
import RefStore.Proofs.Replays
import RefStore.Proofs.FileIds
import RefStore.Proofs.IdSearches
import RefStore.Proofs.IdsAfterOpening
import RefStore.Proofs.Sessions
import RefStore.Proofs.BackwardSearches
import RefStore.Proofs.TypedViews
import RefStore.Proofs.NodeBytes
import RefStore.Proofs.Checksums
import RefStore.Proofs.PoolRuns
import RefStore.Proofs.KeyBytes
import RefStore.Proofs.NodeOperations
