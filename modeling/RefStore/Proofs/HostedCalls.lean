import RefStore.Proofs.ClusterFiles
import RefStore.Proofs.WorkspaceAgreements

/-!
# Calls on collections side by side

Whatever calls an operation makes on collections, and however they end, the files of clusters stay filled
as their names say. A put, a removal or a deletion of one collection spares all others: those of other
clusters, and those with other ids and slots. Main statements: `Hosts.put`, `Hosts.remove`,
`Hosts.delete`, `Call.run_hosts`.
-/

namespace RefStore

theorem Task.Keeps.same_bind {σ ε α β : Type} {P : σ → Prop} {t : Task σ ε α} {f : α → Task σ ε β} {s : σ}
    (ht : t.Keeps (· = s)) (hs : P s) (hf : ∀ a, P ((f a).start s).2) : P ((t >>= f).start s).2 := by
  rw [Task.start_bind]
  have hsame := ht s rfl
  rcases hr : t.start s with ⟨_ | a, z⟩ <;> rw [hr] at hsame
  · exact (show z = s from hsame) ▸ hs
  · exact (show z = s from hsame) ▸ hf a

/-- Which collections and slots of which storages are watched. -/
abbrev Watch := ClusterStorage → CollectionId → SlotId → Prop

/-- Nothing is watched that has an id or a slot in common with a collection of a cluster. -/
def Watch.Clear (watch : Watch) (cluster : ClusterId) (id : CollectionId) (slot : SlotId) : Prop :=
  ∀ b c k, watch b c k → b.cluster = cluster → id ≠ c ∧ slot ≠ k

/-- Nothing is watched. -/
def Watch.nothing : Watch := fun _ _ _ => False

theorem Watch.clear_nothing (cluster : ClusterId) (id : CollectionId) (slot : SlotId) :
    nothing.Clear cluster id slot := fun _ _ _ h => h.elim

namespace Workspace

variable {α ε : Type} {size n : Nat} {s : Stock} {w w₀ : Workspace} {st : ClusterStorage} {t : Transaction}
  {watch : Watch} {cluster : ClusterId}

/-- A workspace whose transaction hosts the storages of its registry. -/
def Hosts (size : Nat) (s : Stock) (n : Nat) (w : Workspace) : Prop :=
  (Part.get w : Transaction).Hosts size s n w.store.registry.storages

/-- What is left of a workspace: the storages are the same, and those that are watched show the same. -/
structure Spares (size : Nat) (s : Stock) (n : Nat) (watch : Watch) (w₀ w : Workspace) : Prop where
  hosts : w.Hosts size s n
  registry : w.store.registry = w₀.store.registry
  alike : ∀ b ∈ w₀.store.registry.storages, ∀ c slot, watch b c slot →
    b.Alike c slot (Part.get w₀) (Part.get w)

namespace Spares

theorem refl (h : w.Hosts size s n) : Spares size s n watch w w :=
  ⟨h, rfl, fun b _ c slot _ => .refl b c slot _⟩

section

variable (h : Spares size s n watch w₀ w)

include h

theorem part {n' : Nat} (ht : t.Hosts size s n' w₀.store.registry.storages)
    (ha : ∀ b ∈ w₀.store.registry.storages, ∀ c slot, watch b c slot → b.Alike c slot (Part.get w) t) :
    Spares size s n' watch w₀ (Part.put t w) :=
  ⟨(h.registry.symm ▸ ht : t.Hosts size s n' w.store.registry.storages), h.registry,
    fun b hb c slot hw => (h.alike b hb c slot hw).trans (ha b hb c slot hw)⟩

theorem transaction : (Part.get w : Transaction).Hosts size s n w₀.store.registry.storages :=
  h.registry ▸ h.hosts

theorem put (hst : st ∈ w₀.store.registry.storages) (hn : n + 1 < 2 ^ 61) {key : Key} (value : Int32)
    (hwatch : ∀ b c slot, watch b c slot → b.cluster = st.cluster → key.collection ≠ c) :
    Spares size s (n + 1) watch w₀ ((onTree (st.tree.put key value)).start w).2 := by
  obtain ⟨hosts, halike⟩ := h.transaction.put hst hn key value
  exact h.part hosts fun b hb c slot hw => halike b hb c slot (hwatch b c slot hw)

end

/-- What only reads leaves everything as it is. -/
theorem reads {t : Task Transaction ε α} (f : ε → CollectionError)
    (ht : ∀ u : Transaction, u.Hosts size s n w₀.store.registry.storages → t.Keeps (· = u)) :
    (Task.onPart (t.mapError f) : Task Workspace CollectionError α).Keeps (Spares size s n watch w₀) := by
  intro w h
  have hsame : (t.start (Part.get w)).2 = Part.get w := ht _ h.transaction _ rfl
  show Spares size s n watch w₀ (Part.put (t.start (Part.get w)).2 w)
  rw [hsame]
  exact h

variable (hst : st ∈ w₀.store.registry.storages)

include hst

theorem remove {key : Key} (hwatch : ∀ b c slot, watch b c slot → b.cluster = st.cluster → key.collection ≠ c) :
    (onTree (st.tree.remove key)).Keeps (Spares size s n watch w₀) := by
  intro w h
  obtain ⟨hosts, halike⟩ := h.transaction.remove hst key
  exact h.part hosts fun b hb c slot hw => halike b hb c slot (hwatch b c slot hw)

theorem move {g : SlotId → Page → Checked SizesError (α × List Write)} {move : Bucket.Move α}
    (hg : Bucket.Moves g move) (operation : String) {id : SlotId}
    (hwatch : ∀ b c slot, watch b c slot → b.cluster = st.cluster → id ≠ slot) :
    (onSizes (do
      let file ← st.sizes.file
      st.sizes.during operation (SizeMap.onSlot file id g))).Keeps (Spares size s n watch w₀) := by
  intro w h
  obtain ⟨hosts, halike⟩ := h.transaction.move hst hg operation id rfl
  exact h.part hosts fun b hb c slot hw => halike b hb c slot (hwatch b c slot hw)

theorem scan (r : Tree.KeyRange) (limit : Option Nat) (h : Spares size s n watch w₀ w) :
    (onTree (st.tree.scan r limit)).Ends w (fun batch w' => w' = w ∧ ∀ e ∈ batch, r.Covers e.key)
      fun _ w' => w' = w := by
  have hw := h.transaction
  have hatt := (hw.housed st hst).attached.1
  obtain ⟨o, ho⟩ := hw.tree hst
  cases o with
  | none =>
    have hstart : (onTree (st.tree.scan r limit)).start w =
        (refuse (.tree (.storage (.unknownFile st.tree.component.file))), w) := by
      rw [onTree, Task.start_onPart, Task.start_mapError, Tree.scan_unseen hw.ready.based ho hatt]
      rfl
    exact .error hstart rfl
  | some es =>
    have hg := Tree.onTree_gives (Tree.scan_finds hatt hw.ample hw.ready.pageSize ho.2 r limit)
    refine hg.ends ⟨rfl, fun e he => ?_⟩
    rw [Tree.limited] at he
    exact (Tree.KeyRange.mem_pick.mp (List.mem_of_mem_take he)).2

/-- Only entries of one collection are removed, batch by batch. -/
theorem removeEntries {collection : CollectionId} {high : Key}
    (hwatch : ∀ b c slot, watch b c slot → b.cluster = st.cluster → collection ≠ c) (fuel : Nat) {low : Key}
    {includesLow : Bool} (hrange : ∀ key, (⟨low, includesLow, high, true⟩ : Tree.KeyRange).Covers key →
      key.collection = collection) :
    (removeEntries st.tree high fuel low includesLow).Keeps (Spares size s n watch w₀) := by
  induction fuel generalizing low includesLow with
  | zero => exact .halt _
  | succ fuel ih =>
    intro w h
    have hscan := Spares.scan hst ⟨low, includesLow, high, true⟩ (some 256) h
    rw [Workspace.removeEntries, Task.start_bind]
    rcases hr : (onTree (st.tree.scan ⟨low, includesLow, high, true⟩ (some 256))).start w with ⟨cause | batch, w'⟩
    · rw [hscan.of_error hr]
      exact h
    obtain ⟨rfl, hcovers⟩ := hscan.of_gives hr
    dsimp only
    cases hlast : batch.getLast? with
    | none => exact h
    | some last =>
      have hbatch : (batch.forM fun e => do
          let _ ← onTree (st.tree.remove e.key)).Keeps (Spares size s n watch w₀) :=
        .forM fun e he => .bind (.remove hst fun b c slot hw hc =>
          (hrange _ (hcovers e he)).symm ▸ hwatch b c slot hw hc) fun _ => .pure _
      exact Task.Keeps.bind hbatch (fun _ => ih fun key hkey =>
        hrange key (.after (hcovers last (List.mem_of_getLast? hlast)) hkey)) w' h

end Spares

/-- What follows the choice of a storage. -/
theorem storageAt_bind {P : Workspace → Prop} {id : StorageId} {f : ClusterStorage → Task Workspace CollectionError α}
    (h : P w) (hf : ∀ st, w.store.registry.storages[id]? = some st → P ((f st).start w).2) :
    P ((storageAt id >>= f).start w).2 := by
  rw [Task.start_bind, storageAt, (Task.Gives.state w).start_bind]
  cases hst : w.store.registry.storages[id]? with
  | none => exact h
  | some st => exact hf st hst

/-- A pointer leads to a storage of its cluster, or to none. -/
theorem loadCollection_ends (p : CollectionPointer) (w : Workspace) :
    (liftM (Store.loadCollection p) : Task Workspace CollectionError Collection).Ends w
      (fun c w' => w' = w ∧ c.pointer = p ∧
        ∃ st, w.store.registry.storages[c.storage]? = some st ∧ st.cluster = p.cluster) fun _ w' => w' = w := by
  have hload : (Store.loadCollection p).Ends w.store
      (fun c st' => st' = w.store ∧ c.pointer = p ∧
        ∃ st, w.store.registry.storages[c.storage]? = some st ∧ st.cluster = p.cluster)
      fun _ st' => st' = w.store := by
    have hcheck : Store.checkAccess.Keeps (· = w.store) := checkAccess_keeps
    refine (hcheck.ends rfl).bind ?_
    rintro _ _ rfl
    refine (Task.Gives.state _).bind_ends ?_
    cases hid : w.store.registry.idFor? p with
    | none => exact .error rfl rfl
    | some id =>
      refine Task.Gives.ends (.pure _ _) ⟨rfl, rfl, ?_⟩
      simp only [Registry.idFor?, Option.bind_eq_bind, Option.bind_eq_some_iff] at hid
      obtain ⟨i, -, st, hst, he⟩ := hid
      split at he
      · next hc =>
        cases he
        exact ⟨st, hst, hc⟩
      · cases he
  refine hload.onPart.mono ?_ ?_
  · rintro c w' ⟨_, ⟨rfl, hc⟩, rfl⟩
    exact ⟨rfl, hc⟩
  · rintro cause w' ⟨_, rfl, rfl⟩
    rfl

namespace Hosts

section

variable (h : w.Hosts size s n)

include h

/-- A put spares all collections with other ids and slots, and those of other clusters. -/
theorem put (hn : n + 1 < 2 ^ 61) (c : Collection) (r : RecordRef) (value : Int32)
    (hwatch : ∀ st, w.store.registry.storages[c.storage]? = some st →
      watch.Clear st.cluster c.id c.pointer.slot) :
    Spares size s (n + 1) watch w ((c.put r value).start w).2 := by
  refine storageAt_bind (.refl (Transaction.Hosts.mono h (Nat.le_succ n))) fun st hst => ?_
  have hmem := List.mem_of_getElem? hst
  have hclear := hwatch st hst
  have hput : Spares size s (n + 1) watch w ((onTree (st.tree.put (c.key r) value)).start w).2 :=
    (Spares.refl h).put hmem hn value fun b x slot hb hc => (hclear b x slot hb hc).1
  refine Task.Keeps.after hput fun old => ?_
  dsimp only
  split
  · exact .bind (.move hmem Bucket.increment_moves _ fun b x slot hb hc => (hclear b x slot hb hc).2)
      fun _ => .pure _
  · exact .pure _

/-- So does a removal. -/
theorem remove (c : Collection) (r : RecordRef)
    (hwatch : ∀ st, w.store.registry.storages[c.storage]? = some st →
      watch.Clear st.cluster c.id c.pointer.slot) :
    Spares size s n watch w ((c.remove r).start w).2 := by
  refine storageAt_bind (.refl h) fun st hst => ?_
  have hmem := List.mem_of_getElem? hst
  have hclear := hwatch st hst
  refine Task.Keeps.bind (.remove hmem fun b x slot hb hc => (hclear b x slot hb hc).1) (fun old => ?_) w (.refl h)
  dsimp only
  split
  · exact .bind (.move hmem Bucket.decrement_moves _ fun b x slot hb hc => (hclear b x slot hb hc).2)
      fun _ => .pure _
  · exact .pure _

/-- So does the deletion of a collection. -/
theorem delete (p : CollectionPointer) (hwatch : watch.Clear p.cluster p.collection p.slot) :
    Spares size s n watch w ((deleteCollection p).start w).2 := by
  have hload := loadCollection_ends p w
  rw [deleteCollection, Task.start_bind]
  rcases hr : (liftM (Store.loadCollection p) : Task Workspace CollectionError Collection).start w with
    ⟨cause | c, w'⟩
  · rw [hload.of_error hr]
    exact .refl h
  obtain ⟨rfl, rfl, st, hst, hc⟩ := hload.of_gives hr
  refine storageAt_bind (.refl h) fun st' hst' => ?_
  obtain rfl : st = st' := Option.some.inj (hst.symm.trans hst')
  have hmem := List.mem_of_getElem? hst
  have hbound : (onTree (entryBound st.tree.component.file)).Keeps (Spares size s n watch w') := by
    refine .reads _ fun u hu => ?_
    obtain ⟨o, ho⟩ := hu.tree hmem
    exact Tree.entryBound_keeps hu.ample hu.ready.based ho
  refine Task.Keeps.bind hbound (fun bound => ?_) w' (.refl h)
  refine .bind (.removeEntries hmem (fun b x slot hb he => (hwatch b x slot hb (he.trans hc)).1) _
    fun key hkey => Key.covers_range.mp hkey) fun _ => ?_
  exact .move hmem Bucket.delete_moves _ fun b x slot hb he => (hwatch b x slot hb (he.trans hc)).2

end

end Hosts

/-! ## Calls that spare nothing in particular -/

variable {op : Operation} {undo : List Undo}

theorem changeRegistry_keeps {f : Registry → Registry} (hf : ∀ r, (f r).storages = r.storages) :
    (Store.changeRegistry f).Keeps fun st => Hosts size s n ⟨st, op, undo⟩ :=
  .change fun st h => (by
    rw [Hosts] at h ⊢
    exact (hf st.registry).symm ▸ h : Hosts size s n ⟨{ st with registry := f st.registry }, op, undo⟩)

theorem onRollback_keeps (u : Undo) : (onRollback u).Keeps (Hosts size s n) := .change fun _ h => h

/-- A storage of the cluster's files is registered. -/
theorem Hosts.register (h : w.Hosts size s n)
    (hst : st.Housed (w.operation.Carries s) w.store.engine.mounted.volume.catalog.nextId) :
    Hosts size s n { w with store := { w.store with registry := w.store.registry.register st } } := by
  refine ⟨h.ready, h.ample, h.drafted, h.filled, fun x hx => ?_⟩
  rcases List.mem_append.mp hx with hx | hx
  · exact h.housed x hx
  · obtain rfl := List.mem_singleton.mp hx
    exact hst

/-- Loading the files of a cluster registers files with the right names. -/
theorem loadCluster_keeps (cluster : ClusterId) :
    (Store.loadCluster cluster).Keeps fun st => Hosts size s n ⟨st, op, undo⟩ := by
  refine .bind checkAccess_keeps fun _ st h => ?_
  rw [(Task.Gives.state st).start_bind]
  have hserves := h.ready.based.serves
  have hhoused {tree : Tree} {sizes : SizeMap} (htree : (Cluster.storage cluster).tree.load? st.volume = some tree)
      (hsizes : (Cluster.storage cluster).sizes.load? st.volume = some sizes) :
      ClusterStorage.Housed (op.Carries s) st.engine.mounted.volume.catalog.nextId ⟨cluster, tree, sizes⟩ := by
    obtain ⟨f, hf, rfl⟩ := Option.map_eq_some_iff.mp htree
    obtain ⟨g, hg, rfl⟩ := Option.map_eq_some_iff.mp hsizes
    have hfn := hserves.idOf?_eq_some.mp hf
    have hgn := hserves.idOf?_eq_some.mp hg
    have hname {f : FileId} {x y : String} (hx : s.names f = some x) (hy : op.Carries s f y) : y = x := by
      rcases hy with hc | hn
      · have hfresh := h.ready.based.operation.fresh _ hc
        rw [hx] at hfresh
        cases hfresh
      · exact Option.some.inj (hn.symm.trans hx)
    exact ⟨hserves.catalog.next hfn, hserves.catalog.next hgn, fun x hx => hname hfn hx, fun x hx => hname hgn hx⟩
  split
  · exact h
  · dsimp only
    split
    · exact h
    · exact h
    · next tree sizes htree hsizes => exact h.register (hhoused htree hsizes)

theorem fileExists_keeps (name : String) (h : w.Hosts size s n) :
    (onStorage (Transaction.fileExists name)).Keeps (· = w) := by
  rintro _ rfl
  obtain ⟨known, hknown, -⟩ := Transaction.Over.fileExists h.ready.based name
  rw [onStorage, ((hknown.mapError CollectionError.storage).onPart).eq]
  rfl

/-- The files of a cluster are made, or it is found that they cannot be. -/
theorem Hosts.createCluster (h : w.Hosts size s n)
    (hroom : w.store.engine.mounted.volume.catalog.nextId.toNat + 2 < UInt32.size) (cluster : ClusterId) :
    ((createCluster cluster).start w).2.Hosts size s n := by
  refine Task.Keeps.same_bind (checkAccess_same w) h fun _ => ?_
  rw [(Task.Gives.state w).start_bind]
  dsimp only
  split
  · exact h
  refine Task.Keeps.same_bind (fileExists_keeps _ h) h fun known => ?_
  split
  · exact h
  obtain ⟨hlt, hsucc⟩ := Shelved.lt_next (f := w.store.engine.mounted.volume.catalog.nextId) (by omega)
  obtain ⟨hlt', -⟩ := Shelved.lt_next (f := w.store.engine.mounted.volume.catalog.nextId + 1) (by omega)
  rcases Transaction.Hosts.createTree h (show _ + 1 < UInt32.size from Nat.lt_of_succ_lt hroom) cluster with
    ⟨cause, hstart⟩ | ⟨t₁, hg₁, h₁, hnext₁, hcarries₁⟩
  · rw [Task.start_bind, onTree, Task.start_onPart, Task.start_mapError, hstart]
    exact h
  have hmade₁ : (onTree (Cluster.storage cluster).tree.create).Gives w _ (Part.put t₁ w) :=
    (hg₁.mapError CollectionError.tree).onPart
  rw [hmade₁.start_bind]
  change t₁.mounted.volume.catalog.nextId = w.store.engine.mounted.volume.catalog.nextId + 1 at hnext₁
  rcases h₁.createSizes (by rw [hnext₁]; omega) cluster with ⟨cause, hstart⟩ | ⟨t₂, hg₂, h₂, hnext₂, hcarries₂⟩
  · have hfails : (Cluster.storage cluster).sizes.create.start (Part.get (Part.put t₁ w : Workspace)) =
        (.error cause, t₁) := hstart
    rw [Task.start_bind, onSizes, Task.start_onPart, Task.start_mapError, hfails]
    exact h₁
  have hmade₂ : (onSizes (Cluster.storage cluster).sizes.create).Gives (Part.put t₁ w) _
      (Part.put t₂ (Part.put t₁ w)) := (hg₂.mapError CollectionError.sizes).onPart
  rw [hmade₂.start_bind]
  rw [hnext₁] at hnext₂
  have hvalid := FileId.ne_none_of_lt hlt
  have hw₂ : Hosts size s n (Part.put t₂ (Part.put t₁ w) : Workspace) := h₂
  refine hw₂.register ⟨?_, ?_, fun x hx => ?_, fun x hx => ?_⟩
  · show w.store.engine.mounted.volume.catalog.nextId < t₂.mounted.volume.catalog.nextId
    rw [hnext₂]
    exact UInt32.lt_trans hlt hlt'
  · show t₁.mounted.volume.catalog.nextId < t₂.mounted.volume.catalog.nextId
    rw [hnext₂, hnext₁]
    exact hlt'
  · -- the first new file got the name of the tree, the second one that of the size map
    rcases (hcarries₂ _ x).mp hx with hx | ⟨he, -⟩
    · exact (((hcarries₁ _ x).mp hx).resolve_left (h.not_carries_next hvalid x)).2
    · have he' : w.store.engine.mounted.volume.catalog.nextId = t₁.mounted.volume.catalog.nextId := he
      have hnat := congrArg UInt32.toNat (he'.trans hnext₁)
      omega
  · refine (((hcarries₂ _ x).mp hx).resolve_left (h₁.not_carries_next ?_ x)).2
    rw [hnext₁]
    exact FileId.ne_none_of_lt hlt'

theorem loadCluster_keeps_engine (cluster : ClusterId) (e : Engine) :
    (Store.loadCluster cluster).Keeps fun st => st.engine = e := by
  refine .bind checkAccess_keeps fun _ => .bind .state fun st => ?_
  split
  · exact .pure _
  · dsimp only
    split
    · exact .pure _
    · exact .refuse _
    · exact .bind (.change fun _ h => h) fun _ => .pure _

theorem Hosts.clusterStorage (h : w.Hosts size s n)
    (hroom : w.store.engine.mounted.volume.catalog.nextId.toNat + 2 < UInt32.size) (cluster : ClusterId) :
    ((clusterStorage cluster).start w).2.Hosts size s n := by
  rw [Workspace.clusterStorage, (Task.Gives.state w).start_bind]
  split
  · exact h
  refine Task.Keeps.same_bind (fileExists_keeps _ h) h fun known => ?_
  dsimp only
  split
  · have hload : ((liftM (Store.loadCluster cluster) : Task Workspace CollectionError _).start w).2.Hosts size s n :=
      ofStore_keeps (fun _ _ => loadCluster_keeps cluster) w h
    have hengine : ((liftM (Store.loadCluster cluster) : Task Workspace CollectionError _).start w).2.store.engine =
        w.store.engine := loadCluster_keeps_engine cluster _ w.store rfl
    rw [Task.start_bind]
    rcases hr : (liftM (Store.loadCluster cluster) : Task Workspace CollectionError _).start w with ⟨_ | loaded, w'⟩ <;>
      rw [hr] at hload hengine
    · exact hload
    · cases loaded with
      | some id => exact hload
      | none => exact hload.createCluster (hengine ▸ hroom) cluster
  · exact h.createCluster hroom cluster

/-- The files of a cluster are deleted. -/
theorem dropCluster_keeps (cluster : ClusterId) : (dropCluster cluster).Keeps (Hosts size s n) := by
  refine .bind (ofStore_keeps fun _ _ => checkAccess_keeps) fun _ w h => ?_
  rw [(Task.Gives.state w).start_bind]
  dsimp only
  split
  · next id st hid hst =>
    have hmem : st ∈ w.store.registry.storages := by
      rw [Registry.storage?, Option.bind_eq_some_iff] at hst
      obtain ⟨_, -, hst⟩ := hst
      exact List.mem_of_getElem? hst
    obtain ⟨hatt, hatt'⟩ := (h.housed st hmem).attached
    have htree : (onTree st.tree.delete).Keeps (Hosts size s n) := fun v hv => by
      have hstart : (st.tree.delete.start (Part.get v)).2 =
          ((Transaction.deleteFile st.treeFile).start (Part.get v)).2 := by
        rw [Tree.delete, (Tree.Shows.file_gives hatt _).start_bind]
        rfl
      have hdone := Transaction.Hosts.deleteFile hv st.treeFile
      rw [← hstart] at hdone
      exact hdone
    have hsizes : (onSizes st.sizes.delete).Keeps (Hosts size s n) := fun v hv => by
      have hstart : (st.sizes.delete.start (Part.get v)).2 =
          ((Transaction.deleteFile st.sizesFile).start (Part.get v)).2 := by
        rw [SizeMap.delete, (SizeMap.Spreads.file_gives hatt' _).start_bind]
        rfl
      have hdone := Transaction.Hosts.deleteFile hv st.sizesFile
      rw [← hstart] at hdone
      exact hdone
    have hwithdraw : (liftM (Store.changeRegistry (·.withdraw cluster st.tree.component.file)) :
        Task Workspace CollectionError Unit).Keeps (Hosts size s n) :=
      ofStore_keeps fun _ _ => changeRegistry_keeps fun _ => rfl
    exact Task.Keeps.bind htree (fun _ => .bind hsizes fun _ => .bind hwithdraw fun _ => onRollback_keeps _) w h
  · exact h

/-- To look for an unused id changes the count only. -/
theorem allocateId_keeps (fuel : Nat) :
    (allocateId st.tree fuel).Keeps fun w => w.Hosts size s n ∧ st ∈ w.store.registry.storages := by
  have hcount (f : Registry → Registry) (hf : ∀ r, (f r).storages = r.storages) :
      (liftM (Store.changeRegistry f) : Task Workspace CollectionError Unit).Keeps
        fun w => w.Hosts size s n ∧ st ∈ w.store.registry.storages := fun w h =>
    ⟨ofStore_keeps (fun _ _ => changeRegistry_keeps hf) w h.1, (hf w.store.registry).symm ▸ h.2⟩
  have hask (low high : Key) : (onTree (st.tree.hasEntriesBetween low high)).Keeps
      fun w => w.Hosts size s n ∧ st ∈ w.store.registry.storages := fun w h => by
    have hw := h.1
    obtain ⟨o, ho⟩ := hw.tree h.2
    have hsame : ((st.tree.hasEntriesBetween low high).start (Part.get w)).2 = Part.get w :=
      Tree.hasEntriesBetween_keeps (hw.housed st h.2).attached.1 hw.ample hw.ready.based ho low high _ rfl
    rw [onTree, Task.start_onPart, Task.start_mapError, hsame]
    exact h
  induction fuel with
  | zero => exact .halt _
  | succ fuel ih =>
    refine .bind .state fun w => .bind (hcount _ ?_) fun _ => ?_
    · exact fun _ => rfl
    split
    · exact ih
    · refine .bind (hask _ _) fun taken => ?_
      split
      · exact ih
      · exact .pure _

/-- A collection is made, unless the size map runs out of ids. -/
theorem Hosts.createCollection_ends (h : w.Hosts size s n)
    (hroom : w.store.engine.mounted.volume.catalog.nextId.toNat + 2 < UInt32.size) (cluster : ClusterId) :
    (createCollection cluster).Ends w (fun _ w' => w'.Hosts size s n)
      fun cause w' => cause ≠ .error (.sizes .exhausted) → w'.Hosts size s n := by
  have hstate {α : Type} {t : Task Workspace CollectionError α} {w : Workspace} (ht : (t.start w).2.Hosts size s n) :
      t.Ends w (fun _ w' => w'.Hosts size s n) fun cause w' =>
        cause ≠ .error (.sizes .exhausted) → w'.Hosts size s n :=
    (Task.ends_of_state ht).mono (fun _ _ h => h) fun _ _ h _ => h
  have haccess : (liftM Store.checkAccess : Task Workspace CollectionError Unit).Ends w (fun _ w' => w' = w)
      fun cause w' => cause ≠ .error (.sizes .exhausted) → w'.Hosts size s n :=
    (Task.ends_of_state (P := (· = w)) (checkAccess_same w w rfl)).mono (fun _ _ h => h) fun _ _ he _ => he.symm ▸ h
  refine haccess.bind ?_
  rintro _ w₀ rfl
  refine (hstate (h.clusterStorage hroom cluster)).bind ?_
  intro id w₁ h₁
  have hstorage : (storageAt id).Ends w₁ (fun st w' => w' = w₁ ∧ st ∈ w₁.store.registry.storages)
      fun _ w' => w' = w₁ := by
    refine (Task.Gives.state w₁).bind_ends ?_
    cases hst : w₁.store.registry.storages[id]? with
    | none => exact .error rfl rfl
    | some st => exact Task.Gives.ends (.pure _ _) ⟨rfl, List.mem_of_getElem? hst⟩
  refine (hstorage.mono (fun _ _ h => h) ?_).bind ?_
  · rintro cause _ rfl -
    exact h₁
  rintro st w₀ ⟨rfl, hst⟩
  have hallocate : (allocateId st.tree idRound).Ends w₀
      (fun _ w' => w'.Hosts size s n ∧ st ∈ w'.store.registry.storages)
      fun cause w' => cause ≠ .error (.sizes .exhausted) → w'.Hosts size s n :=
    (Task.ends_of_state (P := fun w' => w'.Hosts size s n ∧ st ∈ w'.store.registry.storages)
      (allocateId_keeps idRound w₀ ⟨h₁, hst⟩)).mono (fun _ _ h => h) fun _ _ h _ => h.1
  refine hallocate.bind ?_
  rintro collection w₂ ⟨h₂, hst₂⟩
  have hadd : (onSizes st.sizes.add).Ends w₂ (fun _ w' => w'.Hosts size s n)
      fun cause w' => cause ≠ .error (.sizes .exhausted) → w'.Hosts size s n := by
    have hkept := Transaction.Hosts.add h₂ hst₂
    rw [Task.Ends, onSizes, Task.start_onPart, Task.start_mapError]
    rcases hr : st.sizes.add.start (Part.get w₂) with ⟨cause | slot, t'⟩ <;> rw [hr] at hkept
    · refine fun hne => hkept fun he => hne ?_
      obtain rfl : cause = .error .exhausted := Except.error.inj he
      rfl
    · exact hkept fun he => by cases he
  exact hadd.bind fun slot w' h' => Task.Gives.ends (.pure _ _) h'

end Workspace

namespace Collection

open Workspace (Hosts)

variable {α : Type} {size n : Nat} {s : Stock} {w w₀ : Workspace} {watch : Watch}

/-- What can be asked of a collection. -/
inductive Asks (c : Collection) : {α : Type} → Task Workspace CollectionError α → Prop
  | get (r : RecordRef) : Asks c (c.get r)
  | entries : Asks c c.entries
  | first : Asks c c.first
  | last : Asks c c.last
  | size : Asks c c.size

/-- To ask changes nothing. -/
theorem Asks.keeps {c : Collection} {t : Task Workspace CollectionError α} (h : c.Asks t)
    (hw : w.Hosts size s n) : t.Keeps (· = w) := by
  have hpart {ε α : Type} {t : Task Transaction ε α} (f : ε → CollectionError)
      (ht : t.Keeps (· = Part.get w)) :
      (Task.onPart (t.mapError f) : Task Workspace CollectionError α).Keeps (· = w) := by
    intro v (hv : v = w)
    have hsame : (t.start (Part.get w)).2 = Part.get w := ht _ rfl
    show Part.put (t.start (Part.get v)).2 v = w
    rw [hv, hsame]
    rfl
  have hat {f : ClusterStorage → Task Workspace CollectionError α}
      (hf : ∀ st ∈ w.store.registry.storages, (f st).Keeps (· = w)) :
      (Workspace.storageAt c.storage >>= f).Keeps (· = w) := by
    intro v (hv : v = w)
    rw [hv]
    exact Workspace.storageAt_bind (P := (· = w)) rfl fun st hst => hf st (List.mem_of_getElem? hst) w rfl
  have htree {st : ClusterStorage} (hst : st ∈ w.store.registry.storages) := Transaction.Hosts.tree hw hst
  have hover := hw.ready.based
  cases h with
  | get r =>
    refine hat fun st hst => ?_
    obtain ⟨o, ho⟩ := htree hst
    exact hpart _ (Tree.get_keeps (hw.housed st hst).attached.1 hw.ample hover ho _)
  | entries =>
    refine hat fun st hst => ?_
    obtain ⟨o, ho⟩ := htree hst
    exact .bind (hpart _ (Tree.scan_keeps (hw.housed st hst).attached.1 hw.ample hover ho _ _)) fun _ => .pure _
  | first =>
    refine hat fun st hst => ?_
    obtain ⟨o, ho⟩ := htree hst
    exact .bind (hpart _ (Tree.firstKeyBetween_keeps (hw.housed st hst).attached.1 hw.ample hover ho _ _))
      fun _ => .pure _
  | last =>
    refine hat fun st hst => ?_
    obtain ⟨o, ho⟩ := htree hst
    exact .bind (hpart _ (Tree.lastKeyBetween_keeps (hw.housed st hst).attached.1 hw.ample hover ho _ _))
      fun _ => .pure _
  | size =>
    refine hat fun st hst => ?_
    obtain ⟨o, ho⟩ := Transaction.Hosts.sizes hw hst
    exact hpart _ (SizeMap.count_keeps (hw.housed st hst).attached.2 hw.ample hover ho _)

/-- What a collection answers is told by what its storage shows. -/
theorem Asks.start_eq {c : Collection} {t : Task Workspace CollectionError α} (h : c.Asks t)
    (hr : w.store.registry.storages = w₀.store.registry.storages)
    (ha : ∀ b ∈ w₀.store.registry.storages, w₀.store.registry.storages[c.storage]? = some b →
      b.Alike c.id c.pointer.slot (Part.get w₀) (Part.get w)) : (t.start w).1 = (t.start w₀).1 := by
  have hat {α : Type} {f : ClusterStorage → Task Workspace CollectionError α}
      (hf : ∀ b, b.Alike c.id c.pointer.slot (Part.get w₀) (Part.get w) →
        ((f b).start w).1 = ((f b).start w₀).1) :
      ((Workspace.storageAt c.storage >>= f).start w).1 = ((Workspace.storageAt c.storage >>= f).start w₀).1 := by
    rw [Task.start_bind, Task.start_bind, Workspace.storageAt, (Task.Gives.state w).start_bind,
      (Task.Gives.state w₀).start_bind, hr]
    cases hst : w₀.store.registry.storages[c.storage]? with
    | none => rfl
    | some b => exact hf b (ha b (List.mem_of_getElem? hst) hst)
  have hmap {ε α β : Type} {t : Task Transaction ε α} (f : ε → CollectionError) (g : α → β)
      (ht : (t.start (Part.get w)).1 = (t.start (Part.get w₀)).1) :
      ((do return g (← Task.onPart (t.mapError f)) : Task Workspace CollectionError β).start w).1 =
        ((do return g (← Task.onPart (t.mapError f)) : Task Workspace CollectionError β).start w₀).1 := by
    rw [Task.start_bind, Task.start_bind, Task.start_onPart, Task.start_onPart, Task.start_mapError,
      Task.start_mapError, ht]
    cases (t.start (Part.get w₀)).1 <;> rfl
  cases h with
  | get r =>
    exact hat fun b hb => congrArg (Checked.mapError CollectionError.tree)
      (congrFun (congrArg Tree.Reading.get hb.reading) r)
  | entries => exact hat fun b hb => hmap _ _ (congrArg Tree.Reading.entries hb.reading)
  | first => exact hat fun b hb => hmap _ _ (congrArg Tree.Reading.first hb.reading)
  | last => exact hat fun b hb => hmap _ _ (congrArg Tree.Reading.last hb.reading)
  | size => exact hat fun b hb => congrArg (Checked.mapError CollectionError.sizes) hb.count

theorem Asks.agrees {R : Mounted → Mounted → Prop} {j : Journal} (hR : Mounted.ReadAlike R) {c : Collection}
    {t : Task Workspace CollectionError α} (h : c.Asks t) : t.Agrees (Workspace.Beside R j) := by
  cases h with
  | get r => exact get_agrees hR c r
  | entries => exact entries_agrees hR c
  | first => exact first_agrees hR c
  | last => exact last_agrees hR c
  | size => exact size_agrees hR c

/-- Whatever call an operation makes, the files of clusters stay filled as their names say. -/
theorem Call.run_hosts (call : Call) (h : w.Hosts size s n) (hn : n + 1 < 2 ^ 61)
    (hroom : w.store.engine.mounted.volume.catalog.nextId.toNat + 2 < UInt32.size)
    (hslots : (call.run.start w).1 ≠ refuse (.sizes .exhausted)) : (call.run.start w).2.Hosts size s (n + 1) := by
  have hmore {w : Workspace} (h : w.Hosts size s n) : w.Hosts size s (n + 1) :=
    Transaction.Hosts.mono h (Nat.le_succ n)
  have hplain {α : Type} {t : Task Workspace CollectionError α} (ht : (t.start w).2.Hosts size s (n + 1)) :
      ((plain t).start w).2.Hosts size s (n + 1) := Task.Keeps.after ht fun _ => .pure _
  have hasks {α : Type} {c : Collection} {t : Task Workspace CollectionError α} (ht : c.Asks t) :
      ((plain t).start w).2.Hosts size s (n + 1) := by
    have hsame : (t.start w).2 = w := ht.keeps h w rfl
    exact hplain (hsame.symm ▸ hmore h)
  have hmade {α : Type} {t : Task Workspace CollectionError α} {f : α → Ledger → Ledger}
      (ht : t.Ends w (fun _ w' => w'.Hosts size s n) fun cause w' => cause ≠ .error (.sizes .exhausted) →
        w'.Hosts size s n)
      (hslots : ((do return f (← t) : Task Workspace CollectionError (Ledger → Ledger)).start w).1 ≠
        refuse (.sizes .exhausted)) :
      ((do return f (← t) : Task Workspace CollectionError (Ledger → Ledger)).start w).2.Hosts size s (n + 1) := by
    rw [Task.start_bind] at hslots ⊢
    rcases hr : t.start w with ⟨cause | a, w'⟩
    · rw [hr] at hslots
      exact hmore (ht.of_error hr fun he => hslots (congrArg Except.error he))
    · exact hmore (ht.of_gives hr)
  cases call with
  | create cluster => exact hmade (h.createCollection_ends hroom cluster) hslots
  | createOwned session cluster owner =>
    exact hmade ((h.createCollection_ends hroom cluster).bind fun c w' h' => Task.Gives.ends (.pure _ _) h') hslots
  | put c r value =>
    exact hplain (h.put hn c r value fun st _ => Watch.clear_nothing _ _ _).hosts
  | remove c r => exact hplain (hmore (h.remove c r fun st _ => Watch.clear_nothing _ _ _).hosts)
  | get c r => exact hasks (.get r)
  | size c => exact hasks .size
  | entries c => exact hasks .entries
  | first c => exact hasks .first
  | last c => exact hasks .last
  | load p =>
    refine hplain (hmore ?_)
    have hload := Workspace.loadCollection_ends p w
    rcases hr : (liftM (Store.loadCollection p) : Task Workspace CollectionError Collection).start w with ⟨_ | c, w'⟩
    · exact (hload.of_error hr).symm ▸ h
    · exact (hload.of_gives hr).1.symm ▸ h
  | delete p => exact Task.Keeps.after (hmore (h.delete p (Watch.clear_nothing _ _ _)).hosts) fun _ => .pure _
  | addCluster cluster => exact hplain (hmore (h.createCluster hroom cluster))
  | dropCluster cluster =>
    exact hmore (Task.Keeps.bind (Workspace.dropCluster_keeps cluster) (fun _ => .pure _) w h)
  | hook label => exact hplain (hmore h)

end Collection

end RefStore
