import RefStore.Proofs.Agreements
import RefStore.Proofs.CollectionRuns

/-!
# Workspaces over volumes that answer alike

What is done to collections ends alike over two volumes that answer alike, with one registry and one
operation over both. Main statement: `Collection.Call.run_agrees`.
-/

namespace RefStore

section

variable {R : Mounted → Mounted → Prop} {j : Journal} {α : Type}

/-- One registry over two volumes, with one journal for both. -/
structure Store.Beside (R : Mounted → Mounted → Prop) (j : Journal) (s z : Store) : Prop where
  mounted : R s.engine.mounted z.engine.mounted
  journal : s.engine.journal = j ∧ z.engine.journal = j
  registry : s.registry = z.registry

/-- One operation and one registry over two volumes. -/
structure Workspace.Beside (R : Mounted → Mounted → Prop) (j : Journal) (w u : Workspace) : Prop where
  store : w.store.Beside R j u.store
  operation : w.operation = u.operation
  undo : w.undo = u.undo

namespace Workspace

theorem onPart_agrees {ε : Type} {t : Task Transaction ε α} (f : ε → CollectionError)
    (h : t.Agrees (Transaction.Beside R)) :
    (Task.onPart (t.mapError f) : Task Workspace CollectionError α).Agrees (Beside R j) :=
  .onPart (.mapError f h) (fun _ _ hs => ⟨hs.store.mounted, hs.operation⟩)
    fun _ _ _ _ hs ht => ⟨⟨ht.mounted, hs.store.journal, hs.store.registry⟩, ht.operation, hs.undo⟩

theorem onStorage_agrees {t : Task Transaction StorageError α} (h : t.Agrees (Transaction.Beside R)) :
    (onStorage t).Agrees (Beside R j) := onPart_agrees _ h

theorem onTree_agrees {t : Task Transaction TreeError α} (h : t.Agrees (Transaction.Beside R)) :
    (onTree t).Agrees (Beside R j) := onPart_agrees _ h

theorem onSizes_agrees {t : Task Transaction SizesError α} (h : t.Agrees (Transaction.Beside R)) :
    (onSizes t).Agrees (Beside R j) := onPart_agrees _ h

theorem ofStore_agrees {t : Task Store CollectionError α} (h : t.Agrees (Store.Beside R j)) :
    (liftM t : Task Workspace CollectionError α).Agrees (Beside R j) :=
  .onPart h (fun _ _ hs => hs.store) fun _ _ _ _ hs ht => ⟨ht, hs.operation, hs.undo⟩

theorem onRollback_agrees (u : Undo) : (onRollback u).Agrees (Beside R j) :=
  .change fun _ _ hs => ⟨hs.store, hs.operation, congrArg (u :: ·) hs.undo⟩

theorem storageAt_agrees (id : StorageId) : (storageAt id).Agrees (Beside R j) := by
  refine .state_bind (fun w u hs => by rw [hs.store.registry]) fun w => ?_
  split
  · exact .pure _
  · exact .halt _

end Workspace

namespace Store

theorem checkAccess_agrees : checkAccess.Agrees (Beside R j) := by
  refine .state_bind (fun s z hs => by rw [hs.registry]) fun s => ?_
  split
  · exact .refuse _
  · exact .pure _

theorem changeRegistry_agrees (f : Registry → Registry) : (changeRegistry f).Agrees (Beside R j) :=
  .change fun _ _ hs => ⟨hs.mounted, hs.journal, congrArg f hs.registry⟩

theorem loadCollection_agrees (p : CollectionPointer) : (loadCollection p).Agrees (Beside R j) := by
  refine .bind checkAccess_agrees fun _ => .state_bind (fun s z hs => by rw [hs.registry]) fun s => ?_
  split
  · exact .pure _
  · exact .refuse _

theorem checkUsable_agrees :
    (liftM Engine.checkUsable : Task Store CollectionError Unit).Agrees (Beside R j) := by
  have hcheck : Engine.checkUsable.Agrees fun e f =>
      R e.mounted f.mounted ∧ e.journal = j ∧ f.journal = j := by
    refine .state_bind (fun e f hs => by rw [hs.2.1, hs.2.2]) fun e => ?_
    split
    · exact .refuse _
    · exact .pure _
  exact .onPart (.mapError _ hcheck) (fun _ _ hs => ⟨hs.mounted, hs.journal⟩)
    fun _ _ _ _ hs he => ⟨he.1, he.2, hs.registry⟩

theorem view_agrees {t : Task Workspace CollectionError α} (h : t.Agrees (Workspace.Beside R j)) :
    (view t).Agrees (Beside R j) := by
  refine .bind checkUsable_agrees fun _ s z hs => ?_
  have hview := h ⟨s, .none, []⟩ ⟨z, .none, []⟩ ⟨hs, rfl, rfl⟩
  exact ⟨hview.1, hview.2.store⟩

variable (hR : Mounted.ReadAlike R)

include hR

theorem loadCluster_agrees (cluster : ClusterId) : (loadCluster cluster).Agrees (Beside R j) := by
  refine .bind checkAccess_agrees fun _ => .state_bind (fun s z hs => ?_) fun s => ?_
  · have hidOf (name : String) : s.volume.idOf? name = z.volume.idOf? name :=
      hR.idOf? _ _ hs.mounted name
    dsimp only
    rw [hs.registry, Tree.load?, SizeMap.load?, Tree.load?, SizeMap.load?, hidOf, hidOf]
  · dsimp only
    split
    · exact .pure _
    · split
      · exact .pure _
      · exact .refuse _
      · exact .bind (changeRegistry_agrees _) fun _ => .pure _

end Store

namespace Workspace

section

variable (hR : Mounted.ServeAlike R)

include hR

theorem createCluster_agrees (cluster : ClusterId) : (createCluster cluster).Agrees (Beside R j) := by
  refine .bind (ofStore_agrees Store.checkAccess_agrees) fun _ =>
    .state_bind (fun w u hs => by rw [hs.store.registry]) fun w => ?_
  apply Task.Agrees.guarded (.refuse _)
  refine .bind (onStorage_agrees (Transaction.fileExists_agrees hR.toReadAlike _)) fun known => .guarded (.refuse _) ?_
  exact .bind (onTree_agrees (Tree.create_agrees _ hR)) fun _ =>
    .bind (onSizes_agrees (SizeMap.create_agrees _ hR)) fun _ =>
    .bind (ofStore_agrees (Store.changeRegistry_agrees _)) fun _ => .bind (onRollback_agrees _) fun _ => .pure _

theorem clusterStorage_agrees (cluster : ClusterId) : (clusterStorage cluster).Agrees (Beside R j) := by
  refine .state_bind (fun w u hs => by rw [hs.store.registry]) fun w => ?_
  split
  · exact .pure _
  · refine .bind (onStorage_agrees (Transaction.fileExists_agrees hR.toReadAlike _)) fun present => ?_
    dsimp only
    split
    · refine .bind (ofStore_agrees (Store.loadCluster_agrees hR.toReadAlike cluster)) fun loaded => ?_
      split
      · exact .pure _
      · exact createCluster_agrees hR cluster
    · exact createCluster_agrees hR cluster

end

variable (hR : Mounted.ReadAlike R)

include hR

theorem dropCluster_agrees (cluster : ClusterId) : (dropCluster cluster).Agrees (Beside R j) := by
  refine .bind (ofStore_agrees Store.checkAccess_agrees) fun _ =>
    .state_bind (fun w u hs => by rw [hs.store.registry]) fun w => ?_
  dsimp only
  split
  · exact .bind (onTree_agrees (Tree.delete_agrees hR _)) fun _ =>
      .bind (onSizes_agrees (SizeMap.delete_agrees hR _)) fun _ =>
      .bind (ofStore_agrees (Store.changeRegistry_agrees _)) fun _ => onRollback_agrees _
  · exact .refuse _

theorem allocateId_agrees (tree : Tree) (fuel : Nat) : (allocateId tree fuel).Agrees (Beside R j) := by
  induction fuel with
  | zero => exact .halt _
  | succ fuel ih =>
    refine .state_bind (fun w u hs => by rw [hs.store.registry]) fun w => ?_
    refine .bind (ofStore_agrees (Store.changeRegistry_agrees _)) fun _ => ?_
    split
    · exact ih
    · refine .bind (onTree_agrees (Tree.hasEntriesBetween_agrees hR tree _ _)) fun taken => ?_
      split
      · exact ih
      · exact .pure _

theorem entryBound_agrees (file : FileId) : (entryBound file).Agrees (Transaction.Beside R) := by
  refine .bind (.attempt (Tree.steps_agrees hR file)) fun r => ?_
  dsimp only
  split
  · exact .bind (.pure _) fun _ => .bind (Transaction.pageSize_agrees hR).embed fun _ => .pure _
  · exact .bind (.pure _) fun _ => .bind (Transaction.pageSize_agrees hR).embed fun _ => .pure _

theorem removeEntries_agrees (tree : Tree) (high : Key) (fuel : Nat) (low : Key) (includesLow : Bool) :
    (removeEntries tree high fuel low includesLow).Agrees (Beside R j) := by
  induction fuel generalizing low includesLow with
  | zero => exact .halt _
  | succ fuel ih =>
    refine .bind (onTree_agrees (Tree.scan_agrees hR tree _ _)) fun batch => ?_
    split
    · exact .pure _
    · exact .bind (.forM fun e => .bind (onTree_agrees (Tree.remove_agrees hR tree _)) fun _ => .pure _)
        fun _ => ih _ _

theorem deleteCollection_agrees (p : CollectionPointer) : (deleteCollection p).Agrees (Beside R j) :=
  .bind (ofStore_agrees (Store.loadCollection_agrees p)) fun _ => .bind (storageAt_agrees _) fun _ =>
    .bind (onTree_agrees (entryBound_agrees hR _)) fun _ => .bind (removeEntries_agrees hR _ _ _ _ _) fun _ =>
    onSizes_agrees (SizeMap.remove_agrees hR _ _)

omit hR in
theorem createCollection_agrees (hs : Mounted.ServeAlike R) (cluster : ClusterId) :
    (createCollection cluster).Agrees (Beside R j) :=
  .bind (ofStore_agrees Store.checkAccess_agrees) fun _ => .bind (clusterStorage_agrees hs cluster) fun _ =>
    .bind (storageAt_agrees _) fun _ => .bind (allocateId_agrees hs.toReadAlike _ _) fun _ =>
    .bind (onSizes_agrees (SizeMap.add_agrees hs.toReadAlike _)) fun _ => .pure _

end Workspace

namespace Collection

open Workspace

section

variable (hR : Mounted.ReadAlike R) (c : Collection)

include hR

theorem put_agrees (r : RecordRef) (value : Int32) : (c.put r value).Agrees (Workspace.Beside R j) := by
  refine .bind (storageAt_agrees _) fun s => .bind (onTree_agrees (Tree.put_agrees hR _ _ _)) fun old => ?_
  dsimp only
  split
  · exact .bind (onSizes_agrees (SizeMap.increment_agrees hR _ _)) fun _ => .pure _
  · exact .pure _

theorem remove_agrees (r : RecordRef) : (c.remove r).Agrees (Workspace.Beside R j) := by
  refine .bind (storageAt_agrees _) fun s => .bind (onTree_agrees (Tree.remove_agrees hR _ _)) fun old => ?_
  dsimp only
  split
  · exact .bind (onSizes_agrees (SizeMap.decrement_agrees hR _ _)) fun _ => .pure _
  · exact .pure _

theorem get_agrees (r : RecordRef) : (c.get r).Agrees (Workspace.Beside R j) :=
  .bind (storageAt_agrees _) fun _ => onTree_agrees (Tree.get_agrees hR _ _)

theorem size_agrees : c.size.Agrees (Workspace.Beside R j) :=
  .bind (storageAt_agrees _) fun _ => onSizes_agrees (SizeMap.count_agrees hR _ _)

theorem entries_agrees : c.entries.Agrees (Workspace.Beside R j) :=
  .bind (storageAt_agrees _) fun _ => .bind (onTree_agrees (Tree.scan_agrees hR _ _ _)) fun _ => .pure _

theorem first_agrees : c.first.Agrees (Workspace.Beside R j) :=
  .bind (storageAt_agrees _) fun _ => .bind (onTree_agrees (Tree.firstKeyBetween_agrees hR _ _ _)) fun _ => .pure _

theorem last_agrees : c.last.Agrees (Workspace.Beside R j) :=
  .bind (storageAt_agrees _) fun _ => .bind (onTree_agrees (Tree.lastKeyBetween_agrees hR _ _ _)) fun _ => .pure _

end

theorem Call.plain_agrees {t : Task Workspace CollectionError α} (h : t.Agrees (Workspace.Beside R j)) :
    (plain t).Agrees (Workspace.Beside R j) := .bind h fun _ => .pure _

/-- No call on a collection can tell volumes apart that answer alike. -/
theorem Call.run_agrees (hR : Mounted.ServeAlike R) (call : Call) : call.run.Agrees (Workspace.Beside R j) := by
  have hr := hR.toReadAlike
  cases call with
  | create cluster => exact .bind (createCollection_agrees hR cluster) fun _ => .pure _
  | createOwned session cluster owner =>
    exact .bind (.bind (createCollection_agrees hR cluster) fun _ => .pure _) fun _ => .pure _
  | put c r value => exact plain_agrees (put_agrees hr c r value)
  | remove c r => exact plain_agrees (remove_agrees hr c r)
  | get c r => exact plain_agrees (get_agrees hr c r)
  | size c => exact plain_agrees (size_agrees hr c)
  | entries c => exact plain_agrees (entries_agrees hr c)
  | first c => exact plain_agrees (first_agrees hr c)
  | last c => exact plain_agrees (last_agrees hr c)
  | load p => exact plain_agrees (ofStore_agrees (Store.loadCollection_agrees p))
  | delete p => exact .bind (deleteCollection_agrees hr p) fun _ => .pure _
  | addCluster cluster => exact plain_agrees (createCluster_agrees hR cluster)
  | dropCluster cluster =>
    exact .state_bind (fun w u hs => by rw [hs.store.registry]) fun _ =>
      .bind (dropCluster_agrees hr cluster) fun _ => .pure _
  | hook label => exact plain_agrees (onRollback_agrees _)

end Collection

end

end RefStore
