import RefStore.Proofs.Registrations

/-!
# Work in hand

A workspace in the middle of an operation: its transaction has some shelves, its registry knows them,
and the store that is left if the operation is given up has the collections that there were before. So
it stays as clusters are created and dropped and as ids of collections are taken. Main statements:
`InHand.next`, `InHand.clusterStorage_gives`, `InHand.dropCluster_gives`.
-/

namespace RefStore

open Collection (Roll Counted)

variable {size n n' : Nat} {s : Stock} {shelves shelves' : Shelves} {roll roll' roll₀ : Roll}

/-- A transaction and a registry that agree on the shelves and on the collections there. -/
structure Tidy (size : Nat) (s : Stock) (t : Transaction) (r : Registry) (shelves : Shelves)
    (roll : Roll) (n : Nat) : Prop where
  shelved : Shelved size s t r.storages shelves n
  knows : r.Knows shelves
  counted : Counted r.storages r.counter shelves roll

namespace Tidy

variable {t : Transaction} {r : Registry} {p : CollectionPointer} {c : Collection} {id : StorageId}
  {sh : Shelf}

/-- The slot of a collection that is alive counts its entries. -/
theorem balanced (h : Tidy size s t r shelves roll n) (hp : p ∈ roll.live) (hid : shelves id = some sh)
    (hf : sh.storage.treeFile = p.file) : Collection.Balanced p sh := by
  obtain ⟨-, i, x, hx, hxf, hb⟩ := h.counted.live p hp
  obtain rfl := h.knows.sole hx hid (hxf.trans hf.symm)
  rw [hid] at hx
  obtain rfl := Option.some.inj hx
  exact hb

/-- The handle of a collection that is alive leads to its shelf. -/
theorem exists_shelf (h : Tidy size s t r shelves roll n) (hc : c ∈ roll.handles)
    (hl : c.pointer ∈ roll.live) :
    ∃ sh, shelves c.storage = some sh ∧ sh.storage.treeFile = c.pointer.file := by
  obtain ⟨-, st, hst, hf⟩ := h.counted.handles c hc
  obtain ⟨-, i, x, hx, hxf, -⟩ := h.counted.live c.pointer hl
  obtain rfl := (h.shelved.filed.apart hst (h.shelved.stored hx)).1 (hf.trans hxf.symm)
  exact ⟨x, hx, hxf⟩

end Tidy

/-- A store between two operations, with some collections. -/
structure Store.Rests (size : Nat) (s : Stock) (roll : Roll) (n : Nat) (st : Store) : Prop where
  tidy : ∃ shelves, Tidy size s ⟨st.engine.mounted, .none⟩ st.registry shelves roll n
  log : st.engine.journal.log.node = s.logNode

/-- One store after another has the same files, and may have given out more ids. -/
structure Store.Later (st st' : Store) : Prop where
  files : st'.engine.mounted.volume.files = st.engine.mounted.volume.files
  journal : st'.engine.journal = st.engine.journal
  storages : ∀ {id : StorageId} {x : ClusterStorage}, st.registry.storages[id]? = some x →
    st'.registry.storages[id]? = some x
  counter : st.registry.counter ≤ st'.registry.counter
  alike : st.registry.Alike st'.registry

namespace Store

theorem Later.refl (st : Store) : st.Later st := ⟨rfl, rfl, id, Int64.le_refl _, .refl _⟩

theorem Rests.mono {st : Store} (h : st.Rests size s roll n) (hn : n ≤ n') : st.Rests size s roll n' := by
  obtain ⟨⟨shelves, hshelved, hknows, hcounted⟩, hlog⟩ := h
  exact ⟨⟨shelves, hshelved.mono hn, hknows, hcounted⟩, hlog⟩

theorem Rests.later {st st' : Store} (h : st.Rests size s roll n) (hl : st.Later st')
    (hs : st'.engine.mounted.Serves size s)
    (hfiled : Filed st'.engine.mounted.volume.catalog.nextId st'.registry.storages) (hn : n ≤ n') :
    st'.Rests size s roll n' := by
  obtain ⟨⟨shelves, hshelved, hknows, hcounted⟩, hlog⟩ := h
  exact ⟨⟨shelves, hshelved.later hs hl.files hfiled hl.storages hn 0, hknows.alike hl.alike,
    hcounted.mono hl.counter hl.storages⟩, by rw [hl.journal]; exact hlog⟩

section

variable {st : Store} {t : Transaction} {p : CollectionPointer} {id : StorageId} {sh : Shelf}
  (h : Tidy size s t st.registry shelves roll n) (hp : p ∈ roll.pointers)

include h hp

/-- The collection of a pointer is found on the shelf with its tree file. -/
theorem loadCollection_gives (hid : shelves id = some sh) (hf : sh.storage.treeFile = p.file) :
    (loadCollection p).Gives st ⟨id, p⟩ st := by
  obtain ⟨i, x, hst, hsf, hsc⟩ := h.counted.housed p hp
  have hstored := h.shelved.stored hid
  obtain rfl := (h.shelved.filed.apart hst hstored).1 (hsf.trans hf.symm)
  obtain rfl : x = sh.storage := Option.some.inj (hst.symm.trans hstored)
  have hfound := h.knows.idFor?_eq hid hstored hf hsc
  refine (checkAccess_of_allowed h.knows.allowed).bind ((Task.Gives.state _).bind ?_)
  rw [hfound]
  exact .pure _ _

/-- A collection without a shelf is not found. -/
theorem loadCollection_cases : (loadCollection p).Ends st
    (fun c st' => st' = st ∧ c.pointer = p ∧ ∃ sh, shelves c.storage = some sh ∧
      sh.storage.treeFile = p.file) fun _ st' => st' = st := by
  by_cases hex : ∃ id sh, shelves id = some sh ∧ sh.storage.treeFile = p.file
  · obtain ⟨id, sh, hid, hf⟩ := hex
    exact (loadCollection_gives h hp hid hf).ends ⟨rfl, rfl, sh, hid, hf⟩
  · have hunknown : st.registry.idFor? p = none := by
      refine Option.eq_none_iff_forall_ne_some.mpr fun id hid => ?_
      obtain ⟨sh, hsh, hf⟩ := h.knows.exists_of_idFor? hid
      exact hex ⟨id, sh, hsh, hf⟩
    refine (checkAccess_of_allowed h.knows.allowed).bind_ends ((Task.Gives.state _).bind_ends ?_)
    rw [hunknown]
    exact .error rfl rfl

end

end Store

namespace Workspace

variable {w w' : Workspace} {t : Transaction} {cluster : ClusterId} {id : StorageId} {sh : Shelf}

/-- A workspace with some shelves and collections, and with those to go back to. -/
structure InHand (size : Nat) (s : Stock) (roll₀ : Roll) (shelves : Shelves) (roll : Roll) (n : Nat)
    (w : Workspace) : Prop where
  now : Tidy size s (Part.get w) w.store.registry shelves roll n
  back : w.rollback.Rests size s roll₀ n

/-- What an operation does to its workspace, so that it can be taken back. -/
theorem InHand.next (h : w.InHand size s roll₀ shelves roll n)
    (hnow : Tidy size s (Part.get w') w'.store.registry shelves' roll' n')
    (hl : w.rollback.Later w'.rollback) (hn : n ≤ n') : w'.InHand size s roll₀ shelves' roll' n' := by
  refine ⟨hnow, h.back.later hl hnow.shelved.ready.based.serves ?_ hn⟩
  have hfiled := hnow.shelved.filed
  rwa [← Registry.storages_undo _ w'.undo] at hfiled

theorem InHand.mono (h : w.InHand size s roll₀ shelves roll n) (hn : n ≤ n') :
    w.InHand size s roll₀ shelves roll n' :=
  h.next ⟨h.now.shelved.mono hn, h.now.knows, h.now.counted⟩ (.refl _) hn

/-- Changes of files that have nothing to do with the volume leave no trace if they are given up. -/
theorem rollback_put (hm : t.mounted = w.store.engine.mounted) :
    (Part.put t w : Workspace).rollback = w.rollback := by
  show Workspace.rollback { w with
    store := { w.store with engine := { w.store.engine with mounted := t.mounted } }
    operation := t.operation } = _
  rw [hm]
  rfl

theorem InHand.put (h : w.InHand size s roll₀ shelves roll n) (hm : t.mounted = w.store.engine.mounted)
    (hnow : Tidy size s t w.store.registry shelves' roll' n') (hn : n ≤ n') :
    (Part.put t w : Workspace).InHand size s roll₀ shelves' roll' n' :=
  h.next hnow (by rw [rollback_put hm]; exact .refl _) hn

theorem storageAt_gives {st : ClusterStorage} (h : w.store.registry.storages[id]? = some st) :
    (storageAt id).Gives w st w := by
  refine (Task.Gives.state w).bind ?_
  rw [h]
  exact .pure st w

section

variable (h : w.InHand size s roll₀ shelves roll n)

include h

/-- The next id of a collection is taken. -/
theorem InHand.counted (hmax : w.counter ≠ Int64.maxValue) :
    w.counted.InHand size s roll₀ shelves roll n := by
  have hle : w.counter ≤ w.counter + 1 := Int64.le_of_lt (lt_add_one h.now.counted.nonneg hmax)
  refine h.next ⟨h.now.shelved, ⟨h.now.knows.allowed, h.now.knows.clusters, h.now.knows.registered⟩,
    h.now.counted.mono hle id⟩ ⟨rfl, rfl, fun hst => ?_, ?_, ?_⟩ (Nat.le_refl n)
  · show (w.undo.foldl Registry.undo w.counted.store.registry).storages[_]? = some _
    rw [Registry.storages_undo]
    exact (Registry.storages_undo w.store.registry w.undo) ▸ hst
  · show (w.undo.foldl Registry.undo w.store.registry).counter ≤
      (w.undo.foldl Registry.undo w.counted.store.registry).counter
    rw [Collection.counter_undo, Collection.counter_undo]
    exact hle
  · have ha : w.store.registry.Alike w.counted.store.registry := ⟨rfl, fun _ => rfl, fun _ => rfl⟩
    exact ha.foldl_undo w.undo

/-- No entry has the next id, so that the search for one ends at once. -/
theorem InHand.allocateId_gives (hid : shelves id = some sh) (hmax : w.counter ≠ Int64.maxValue) :
    (allocateId sh.storage.tree idRound).Gives w (w.counter + 1) w.counted := by
  have hlt := lt_add_one h.now.counted.nonneg hmax
  have hempty : (sh.storage.tree.scan (.closed (Key.range (w.counter + 1)).1
      (Key.range (w.counter + 1)).2) (some 1)).Gives (Part.get w.counted) [] (Part.get w.counted) := by
    have hscan := Tree.scan_finds (h.now.shelved.filed.attached (h.now.shelved.stored hid)).1
      h.now.shelved.ample h.now.shelved.ready.pageSize (h.now.shelved.stands hid).tree
      (.closed (Key.range (w.counter + 1)).1 (Key.range (w.counter + 1)).2) (some 1)
    have hnil : (Tree.KeyRange.closed (Key.range (w.counter + 1)).1
        (Key.range (w.counter + 1)).2).pick sh.entries = [] := by
      refine List.eq_nil_of_length_eq_zero ((Entries.length_ownEntries _ _).trans ?_)
      refine Entries.tally_eq_zero fun e he heq => ?_
      exact Int64.lt_irrefl (Int64.lt_of_le_of_lt (h.now.counted.entries hid e he) (heq ▸ hlt))
    rw [hnil] at hscan
    exact hscan
  have hnone : (sh.storage.tree.hasEntriesBetween (Key.range (w.counter + 1)).1
      (Key.range (w.counter + 1)).2).Gives (Part.get w.counted) false (Part.get w.counted) := by
    have hfirst : (sh.storage.tree.firstKeyBetween (Key.range (w.counter + 1)).1
        (Key.range (w.counter + 1)).2).Gives (Part.get w.counted) none (Part.get w.counted) :=
      Task.Gives.bind hempty (.pure _ _)
    exact Task.Gives.bind hfirst (.pure _ _)
  have hfree : (onTree (sh.storage.tree.hasEntriesBetween (Key.range (w.counter + 1)).1
      (Key.range (w.counter + 1)).2)).Gives w.counted false w.counted :=
    (hnone.mapError _).onPart
  have hround : idRound = (idRound - 1) + 1 := by decide
  rw [hround]
  have hnot : ¬ w.counter + 1 ≤ 0 := add_one_pos h.now.counted.nonneg hmax
  refine (Task.Gives.state w).bind ((counted_gives h.now.counted.nonneg hmax).bind ?_)
  dsimp only
  rw [show w.store.registry.counter = w.counter from rfl, if_neg hnot]
  exact hfree.bind (.pure _ _)

/-- The next storage has no shelf yet. -/
theorem InHand.shelf_free : shelves w.store.registry.storages.length = none := by
  refine Option.eq_none_iff_forall_ne_some.mpr fun x hx => ?_
  exact Nat.lt_irrefl _ (List.getElem?_eq_some_iff.mp (h.now.shelved.stored hx)).1

/-- A cluster without a shelf gets one. -/
theorem InHand.createCluster_gives (cluster : ClusterId)
    (hroom : w.store.engine.mounted.volume.catalog.nextId.toNat + 2 < UInt32.size)
    (hno : ∀ {id sh}, shelves id = some sh → sh.storage.cluster ≠ cluster) :
    ∃ st w', (createCluster cluster).Gives w w.store.registry.storages.length w' ∧
      st.cluster = cluster ∧ w'.counter = w.counter ∧
      w'.store.engine.mounted.volume.catalog.nextId.toNat = w.store.engine.mounted.volume.catalog.nextId.toNat + 2 ∧
      w'.InHand size s roll₀ (Function.update shelves w.store.registry.storages.length (some ⟨st, [], []⟩))
        roll n := by
  have hshelved := h.now.shelved
  have hknows := h.now.knows
  obtain ⟨tree, sizes, t₁, t₂, hg₁, hg₂, hfiles, hnext, hle, hadded⟩ := hshelved.add hroom hno
  have hfree : (Transaction.fileExists (Cluster.storage cluster).tree.fileName).Gives (Part.get w) false
      (Part.get w) := hshelved.ready.fileExists_false fun f => (hshelved.free hno f).1
  have hold {id : StorageId} {x : ClusterStorage} (hx : w.store.registry.storages[id]? = some x) :
      x.treeFile ≠ tree.component.file := fun he =>
    UInt32.lt_irrefl _ (UInt32.lt_of_lt_of_le (hshelved.filed.below hx).1 (he ▸ hle))
  have hnone := h.shelf_free
  have hclusters : w.store.registry.clusters[cluster]? = none := by
    refine Option.eq_none_iff_forall_ne_some.mpr fun f hf => ?_
    obtain ⟨i, x, hx, hc, -⟩ := hknows.clusters.mp hf
    exact hno hx hc
  have hregistered : w.store.registry.registered[tree.component.file]? = none := by
    refine Option.eq_none_iff_forall_ne_some.mpr fun i hi => ?_
    obtain ⟨x, hx, hf⟩ := hknows.registered.mp hi
    exact hold (hshelved.stored hx) hf
  let w₂ : Workspace := Part.put t₂ (Part.put t₁ w : Workspace)
  let st : ClusterStorage := ⟨cluster, tree, sizes⟩
  let w₃ : Workspace := { w₂ with store := { w₂.store with registry := w.store.registry.register st } }
  let w₄ : Workspace := { w₃ with undo := .unregister cluster tree.component.file :: w.undo }
  refine ⟨st, w₄, ?_, rfl, rfl, hnext, h.next ⟨hadded, ?_, ?_⟩ ⟨hfiles, rfl, fun {i x} hx => ?_, ?_, ?_⟩
    (Nat.le_refl n)⟩
  · refine (checkAccess_of_allowed hknows.allowed).bind ((Task.Gives.state w).bind ?_)
    dsimp only
    rw [if_neg (by rw [Registry.registeredId?, hclusters]; exact Bool.false_ne_true)]
    refine (hfree.mapError _).onPart.bind ?_
    rw [if_neg Bool.false_ne_true]
    refine (hg₁.mapError _).onPart.bind ((hg₂.mapError _).onPart.bind ?_)
    have hregister : (liftM (Store.changeRegistry (·.register st)) :
        Task Workspace CollectionError Unit).Gives w₂ () w₃ := (Task.Gives.change _ _).onPart
    exact hregister.bind ((Task.Gives.change _ _).bind (.pure _ _))
  · exact hknows.register (fun {i x} hx => ⟨hno hx, hold (hshelved.stored hx)⟩) hnone
  · refine h.now.counted.shelve (fun p hp => ?_) hnone
    obtain ⟨i, x, hx, hf, -⟩ := h.now.counted.housed p hp
    exact hf ▸ hold hx
  · have hx' : (w.undo.foldl Registry.undo w.store.registry).storages[i]? = some x := hx
    show (w₄.undo.foldl Registry.undo w₄.store.registry).storages[i]? = some x
    rw [Registry.storages_undo] at hx' ⊢
    show (w.store.registry.storages ++ [st])[i]? = some x
    rw [List.getElem?_append_left (List.getElem?_eq_some_iff.mp hx').1]
    exact hx'
  · show (w.undo.foldl Registry.undo w.store.registry).counter ≤
      (w₄.undo.foldl Registry.undo w₄.store.registry).counter
    rw [Collection.counter_undo, Collection.counter_undo]
    exact Int64.le_refl _
  · have ha : w.store.registry.Alike ((w.store.registry.register st).undo (.unregister st.cluster st.treeFile)) :=
      .register_withdraw hclusters hregistered
    exact ha.foldl_undo w.undo

/-- The storage of a cluster with a shelf is there. -/
theorem InHand.clusterStorage_known (hid : shelves id = some sh) :
    (clusterStorage sh.storage.cluster).Gives w id w := by
  refine (Task.Gives.state w).bind ?_
  rw [h.now.knows.registeredId?_eq_some.mpr ⟨sh, hid, rfl⟩]
  exact .pure id w

theorem InHand.registeredId?_eq_none (hno : ∀ {id sh}, shelves id = some sh → sh.storage.cluster ≠ cluster) :
    w.store.registry.registeredId? cluster = none := by
  refine Option.eq_none_iff_forall_ne_some.mpr fun id hid => ?_
  obtain ⟨sh, hsh, hc⟩ := h.now.knows.registeredId?_eq_some.mp hid
  exact hno hsh hc

/-- That of a cluster without one is made. -/
theorem InHand.clusterStorage_new (cluster : ClusterId)
    (hroom : w.store.engine.mounted.volume.catalog.nextId.toNat + 2 < UInt32.size)
    (hno : ∀ {id sh}, shelves id = some sh → sh.storage.cluster ≠ cluster) :
    ∃ st w', (clusterStorage cluster).Gives w w.store.registry.storages.length w' ∧
      st.cluster = cluster ∧ w'.counter = w.counter ∧
      w'.store.engine.mounted.volume.catalog.nextId.toNat = w.store.engine.mounted.volume.catalog.nextId.toNat + 2 ∧
      w'.InHand size s roll₀ (Function.update shelves w.store.registry.storages.length (some ⟨st, [], []⟩))
        roll n := by
  have hfree : (Transaction.fileExists (Cluster.storage cluster).tree.fileName).Gives (Part.get w) false
      (Part.get w) := h.now.shelved.ready.fileExists_false fun f => (h.now.shelved.free hno f).1
  obtain ⟨st, w', hg, hmade⟩ := h.createCluster_gives cluster hroom hno
  refine ⟨st, w', (Task.Gives.state w).bind ?_, hmade⟩
  rw [h.registeredId?_eq_none hno]
  exact (hfree.mapError _).onPart.bind hg

/-- The storage of a cluster is there or is made, and then it is empty. -/
theorem InHand.clusterStorage_gives (cluster : ClusterId)
    (hroom : w.store.registry.registeredId? cluster = none →
      w.store.engine.mounted.volume.catalog.nextId.toNat + 2 < UInt32.size) :
    ∃ id sh shelves' w', (clusterStorage cluster).Gives w id w' ∧
      shelves' id = some sh ∧ sh.storage.cluster = cluster ∧ (shelves id = some sh ∨ sh.numbers = []) ∧
      w'.counter = w.counter ∧ w'.InHand size s roll₀ shelves' roll n := by
  by_cases hex : ∃ id sh, shelves id = some sh ∧ sh.storage.cluster = cluster
  · obtain ⟨id, sh, hid, rfl⟩ := hex
    exact ⟨id, sh, shelves, w, h.clusterStorage_known hid, hid, rfl, .inl hid, rfl, h⟩
  · have hno {id : StorageId} {sh : Shelf} (hid : shelves id = some sh) : sh.storage.cluster ≠ cluster :=
      fun hc => hex ⟨id, sh, hid, hc⟩
    obtain ⟨st, w', hg, hc, hcount, -, hw'⟩ := h.clusterStorage_new cluster (hroom (h.registeredId?_eq_none hno)) hno
    exact ⟨_, _, _, w', hg, Function.update_self .., hc, .inr rfl, hcount, hw'⟩

/-- The files of a cluster go, and its collections with them. -/
theorem InHand.dropCluster_gives (hid : shelves id = some sh) :
    ∃ w', (dropCluster sh.storage.cluster).Gives w () w' ∧ w'.store.engine.mounted = w.store.engine.mounted ∧
      w'.InHand size s roll₀ (Function.update shelves id none) (roll.strikeCluster sh.storage.cluster) n := by
  have hshelved := h.now.shelved
  have hknows := h.now.knows
  have hst := hshelved.stored hid
  obtain ⟨t₁, t₂, hg₁, hg₂, hm, hdropped⟩ := hshelved.drop hid
  let w₂ : Workspace := Part.put t₂ (Part.put t₁ w : Workspace)
  let w₃ : Workspace := { w₂ with store :=
    { w₂.store with registry := w.store.registry.withdraw sh.storage.cluster sh.storage.treeFile } }
  let w₄ : Workspace := { w₃ with undo := .register sh.storage.cluster sh.storage.treeFile id :: w.undo }
  refine ⟨w₄, ?_, hm, h.next ⟨hdropped, ?_, ?_⟩ ⟨?_, rfl, fun {i x} hx => ?_, ?_, ?_⟩ (Nat.le_refl n)⟩
  · refine (checkAccess_of_allowed hknows.allowed).bind ((Task.Gives.state w).bind ?_)
    dsimp only
    rw [hknows.registeredId?_eq_some.mpr ⟨sh, hid, rfl⟩, hknows.storage?_eq_some hid hst]
    refine (hg₁.mapError _).onPart.bind ((hg₂.mapError _).onPart.bind ?_)
    have hwithdraw : (liftM (Store.changeRegistry
        (·.withdraw sh.storage.cluster sh.storage.tree.component.file)) :
        Task Workspace CollectionError Unit).Gives w₂ () w₃ := (Task.Gives.change _ _).onPart
    exact hwithdraw.bind (.change _ _)
  · exact hknows.withdraw hid
  · exact h.now.counted.drop hid (fun hx hy => (hshelved.filed.apart hx hy).1) hst
  · show t₂.mounted.volume.files = _
    rw [hm]
    rfl
  · have hx' : (w.undo.foldl Registry.undo w.store.registry).storages[i]? = some x := hx
    show (w₄.undo.foldl Registry.undo w₄.store.registry).storages[i]? = some x
    rw [Registry.storages_undo] at hx' ⊢
    exact hx'
  · show (w.undo.foldl Registry.undo w.store.registry).counter ≤
      (w₄.undo.foldl Registry.undo w₄.store.registry).counter
    rw [Collection.counter_undo, Collection.counter_undo]
    exact Int64.le_refl _
  · have ha := Registry.Alike.withdraw_enroll
      (hknows.clusters.mpr ⟨id, sh, hid, rfl, rfl⟩) (hknows.registered.mpr ⟨sh, hid, rfl⟩)
    exact ha.foldl_undo w.undo

/-- A cluster that is made and dropped again leaves the shelves as they were. -/
theorem InHand.createCluster_dropped (cluster : ClusterId)
    (hroom : w.store.engine.mounted.volume.catalog.nextId.toNat + 2 < UInt32.size)
    (hno : ∀ {id sh}, shelves id = some sh → sh.storage.cluster ≠ cluster) :
    ∃ id w₁ w₂, (createCluster cluster).Gives w id w₁ ∧ (dropCluster cluster).Gives w₁ () w₂ ∧
      w₁.store.engine.mounted.volume.catalog.nextId.toNat = w.store.engine.mounted.volume.catalog.nextId.toNat + 2 ∧
      w₂.store.engine.mounted = w₁.store.engine.mounted ∧
      w₂.InHand size s roll₀ shelves (roll.strikeCluster cluster) n := by
  obtain ⟨x, w₁, hg₁, rfl, -, hnext, h₁⟩ := h.createCluster_gives cluster hroom hno
  obtain ⟨w₂, hg₂, hm, h₂⟩ := h₁.dropCluster_gives (Function.update_self ..)
  rw [Function.update_idem, ← h.shelf_free, Function.update_eq_self] at h₂
  exact ⟨_, w₁, w₂, hg₁, hg₂, hnext, hm, h₂⟩

/-- A cluster without a shelf cannot be dropped. -/
theorem InHand.dropCluster_refused (hno : ∀ {id sh}, shelves id = some sh → sh.storage.cluster ≠ cluster) :
    ∃ cause, (dropCluster cluster).start w = (.error cause, w) := by
  rw [dropCluster, (checkAccess_of_allowed h.now.knows.allowed).start_bind,
    (Task.Gives.state w).start_bind]
  dsimp only
  rw [h.registeredId?_eq_none hno]
  exact ⟨_, rfl⟩

end

end Workspace

end RefStore
