import RefStore.Proofs.CommitRooms

/-!
# What operations do

Besides the calls on collections, an operation may work on the shared trees and the size maps themselves,
with any keys and slots; clusters are loaded and views are read now and then. Whatever it does, the files
stay those of clusters, and so they do when it is committed or given up. Main statements:
`Workspace.Performs.backed`, `Store.Houses.finished`, `Store.Houses.undone`.
-/

namespace RefStore

open Collection (Ledger)

variable {α : Type} {dir : Path} {place : Location} {size n k : Nat} {s : Stock} {st st' : Store} {op : Operation}
  {e : Engine} {w w₀ : Workspace} {m₀ : Mounted} {journal : Journal} {c : Collection}
  {t : Task Workspace CollectionError α}

/-! ## Views -/

theorem Collection.Asks.keeps_registry (h : c.Asks t) (r : Registry) : t.Keeps fun w => w.store.registry = r := by
  have hlasting := Workspace.Lasting.ofRegistry (· = r)
  cases h with
  | get r => exact hlasting.get c r
  | entries => exact hlasting.entries c
  | first => exact hlasting.first c
  | last => exact hlasting.last c
  | size => exact hlasting.size c

namespace Store

/-- The store after any number of views in which collections are read. -/
inductive Viewed (st : Store) : Store → Prop where
  | nothing : Viewed st st
  | view {α : Type} {st' : Store} {c : Collection} {t : Task Workspace CollectionError α}
      (before : Viewed st st') (asks : c.Asks t) : Viewed st ((Store.view t).start st').2

theorem asked_beside (h : c.Asks t) : st.Beside Mounted.Twin st.engine.journal ((Store.view t).start st).2 :=
  Houses.view_beside (h.agrees (Mounted.Twin.readAlike_from _)) (h.keeps_registry _)

namespace Viewed

theorem beside (h : st.Viewed st') : st.Beside Mounted.Twin st.engine.journal st' := by
  induction h with
  | nothing => exact ⟨.refl _, ⟨rfl, rfl⟩, rfl⟩
  | @view _ st₁ _ _ before asks ih =>
    have hb : st₁.Beside Mounted.Twin st₁.engine.journal _ := asked_beside asks
    exact ⟨ih.mounted.trans hb.mounted, ⟨rfl, hb.journal.2.trans ih.journal.2⟩, ih.registry.trans hb.registry⟩

/-- No view changes what another one shows. -/
theorem answers (h : st.Viewed st') (hu : st.engine.journal.broken = false) (asks : c.Asks t) :
    ((Store.view t).start st').1 = (t.start ⟨st, .none, []⟩).1 := by
  have hb := h.beside
  rw [view_start (hb.journal.2 ▸ hu)]
  exact (asks.agrees Mounted.Twin.serveAlike.toReadAlike ⟨st, .none, []⟩ ⟨st', .none, []⟩ ⟨hb, rfl, rfl⟩).1.symm

end Viewed

end Store

/-! ## Deeds -/

namespace Workspace

/-- What an operation may do: a call on collections, or one on the tree or the size map of a storage. -/
inductive Deed where
  | call (call : Collection.Call)
  | putEntry (id : StorageId) (key : Key) (value : Int32)
  | removeEntry (id : StorageId) (key : Key)
  | addSlot (id : StorageId)
  | incrementSlot (id : StorageId) (slot : SlotId)
  | decrementSlot (id : StorageId) (slot : SlotId)
  | removeSlot (id : StorageId) (slot : SlotId)

namespace Deed

/-- Work on the files of a storage. It neither makes nor deletes a collection. -/
def onFiles {α : Type} (id : StorageId) (f : ClusterStorage → Task Workspace CollectionError α) :
    Task Workspace CollectionError (Ledger → Ledger) :=
  Collection.Call.plain (storageAt id >>= f)

section

variable {α : Type} {id : StorageId} {f : ClusterStorage → Task Workspace CollectionError α}

theorem onFiles_start {x : ClusterStorage} (hx : w.store.registry.storages[id]? = some x) :
    (onFiles id f).start w = (Collection.Call.plain (f x)).start w := by
  rw [onFiles, Collection.Call.plain, Collection.Call.plain, Task.start_bind, (storageAt_gives hx).start_bind,
    ← Task.start_bind]

theorem onFiles_halts (hx : w.store.registry.storages[id]? = none) :
    (onFiles id f).start w = (halt .foreignHandle, w) := by
  rw [onFiles, Collection.Call.plain, Task.start_bind, Task.start_bind, storageAt, (Task.Gives.state w).start_bind, hx]
  rfl

end

def run : Deed → Task Workspace CollectionError (Ledger → Ledger)
  | .call c => c.run
  | .putEntry id key value => onFiles id fun x => onTree (x.tree.put key value)
  | .removeEntry id key => onFiles id fun x => onTree (x.tree.remove key)
  | .addSlot id => onFiles id fun x => onSizes x.sizes.add
  | .incrementSlot id slot => onFiles id fun x => onSizes (x.sizes.increment slot)
  | .decrementSlot id slot => onFiles id fun x => onSizes (x.sizes.decrement slot)
  | .removeSlot id slot => onFiles id fun x => onSizes (x.sizes.remove slot)

theorem run_agrees {R : Mounted → Mounted → Prop} (hR : Mounted.ServeAlike R) (deed : Deed) :
    deed.run.Agrees (Beside R journal) := by
  have hr := hR.toReadAlike
  have hfiles {α : Type} {id : StorageId} {f : ClusterStorage → Task Workspace CollectionError α}
      (hf : ∀ x, (f x).Agrees (Beside R journal)) : (onFiles id f).Agrees (Beside R journal) :=
    Collection.Call.plain_agrees (.bind (storageAt_agrees id) hf)
  cases deed with
  | call c => exact c.run_agrees hR
  | putEntry id key value => exact hfiles fun x => onTree_agrees (Tree.put_agrees hr _ _ _)
  | removeEntry id key => exact hfiles fun x => onTree_agrees (Tree.remove_agrees hr _ _)
  | addSlot id => exact hfiles fun x => onSizes_agrees (SizeMap.add_agrees hr _)
  | incrementSlot id slot => exact hfiles fun x => onSizes_agrees (SizeMap.increment_agrees hr _ _)
  | decrementSlot id slot => exact hfiles fun x => onSizes_agrees (SizeMap.decrement_agrees hr _ _)
  | removeSlot id slot => exact hfiles fun x => onSizes_agrees (SizeMap.remove_agrees hr _ _)

/-- Whatever an operation does, the files of clusters stay filled as their names say. -/
theorem run_hosts (deed : Deed) (h : w.Hosts size s n) (hn : n + 1 < 2 ^ 61)
    (hroom : w.store.engine.mounted.volume.catalog.nextId.toNat + 2 < UInt32.size)
    (hslots : (deed.run.start w).1 ≠ refuse (.sizes .exhausted)) : (deed.run.start w).2.Hosts size s (n + 1) := by
  have hsame : Spares size s n Watch.nothing w w := .refl h
  have hmore {w : Workspace} (h : w.Hosts size s n) : w.Hosts size s (n + 1) :=
    Transaction.Hosts.mono h (Nat.le_succ n)
  have hfiles {α : Type} {id : StorageId} {f : ClusterStorage → Task Workspace CollectionError α}
      (hf : ∀ x ∈ w.store.registry.storages, ((f x).start w).2.Hosts size s (n + 1)) :
      ((onFiles id f).start w).2.Hosts size s (n + 1) :=
    Task.Keeps.after (storageAt_bind (hmore h) fun x hx => hf x (List.mem_of_getElem? hx)) fun _ => .pure _
  have hmove {x : ClusterStorage} (hx : x ∈ w.store.registry.storages) {α : Type}
      {g : SlotId → Page → Checked SizesError (α × List Write)} {move : Bucket.Move α} (hg : Bucket.Moves g move)
      (operation : String) (slot : SlotId) :
      ((onSizes (do
        let file ← x.sizes.file
        x.sizes.during operation (SizeMap.onSlot file slot g))).start w).2.Hosts size s (n + 1) :=
    hmore (Spares.move hx hg operation (fun _ _ _ hw => hw.elim) w hsame).hosts
  cases deed with
  | call c => exact c.run_hosts h hn hroom hslots
  | putEntry id key value =>
    exact hfiles fun x hx => (hsame.put hx hn value fun _ _ _ hw => hw.elim).hosts
  | removeEntry id key =>
    exact hfiles fun x hx =>
      hmore (Spares.remove hx (fun _ _ _ hw => hw.elim) w hsame).hosts
  | addSlot id =>
    cases hid : w.store.registry.storages[id]? with
    | none =>
      rw [run, onFiles_halts hid]
      exact hmore h
    | some x =>
      have hx := List.mem_of_getElem? hid
      rw [run, onFiles_start hid] at hslots ⊢
      refine hmore (Task.Keeps.after ?_ fun _ => .pure _)
      refine Transaction.Hosts.add h hx fun hadd => hslots ?_
      rw [Collection.Call.plain, Task.start_bind, onSizes, Task.start_onPart, Task.start_mapError, hadd]
      rfl
  | incrementSlot id slot => exact hfiles fun x hx => hmove hx Bucket.increment_moves _ slot
  | decrementSlot id slot => exact hfiles fun x hx => hmove hx Bucket.decrement_moves _ slot
  | removeSlot id slot => exact hfiles fun x hx => hmove hx Bucket.delete_moves _ slot

end Deed

theorem Backed.deed (h : w.Backed m₀ journal size s n) (deed : Deed) (hn : n + 1 < 2 ^ 61)
    (hroom : w.store.engine.mounted.volume.catalog.nextId.toNat + 2 < UInt32.size)
    (hslots : (deed.run.start w).1 ≠ refuse (.sizes .exhausted)) :
    (deed.run.start w).2.Backed m₀ journal size s (n + 1) := by
  obtain ⟨m, hm, hosts⟩ := h.twin
  have hagrees : deed.run.Agrees (Beside (fun m m' => m₀.Unchanged m ∧ m.Twin m') journal) :=
    deed.run_agrees (Mounted.Twin.serveAlike_from m₀)
  refine h.transfer hagrees hm (deed.run_hosts hosts hn (hm.nextId.symm ▸ hroom) ?_)
  rw [← (hagrees _ _ (h.beside hm)).1]
  exact hslots

namespace Backed

/-- To load the files of a cluster leaves them as they are. -/
theorem clusterLoaded (h : w.Backed m₀ journal size s n) (cluster : ClusterId) :
    Backed m₀ journal size s n { w with store := ((Store.loadCluster cluster).start w.store).2 } := by
  obtain ⟨m, hm, hosts⟩ := h.twin
  exact h.transfer (ofStore_agrees (Store.loadCluster_agrees (Mounted.Twin.serveAlike_from m₀).toReadAlike cluster))
    hm (ofStore_keeps (fun _ _ => loadCluster_keeps cluster) _ hosts)

/-- So do views. -/
theorem viewed (h : w.Backed m₀ journal size s n) (views : w.store.Viewed st) :
    Backed m₀ journal size s n { w with store := st } := by
  obtain ⟨hu, hj, m, hm, hosts⟩ := h
  have hviews := views.beside
  refine ⟨hu.trans hviews.mounted.unchanged, hviews.journal.2.trans hj, m, hviews.mounted.symm.trans hm, ?_⟩
  show Transaction.Hosts size s n st.registry.storages ⟨m, w.operation⟩
  exact hviews.registry ▸ hosts

end Backed

/-- What an operation has made of its workspace by a number of deeds, however these end. Neither file ids
nor slots may run out. Clusters are loaded and views read now and then. -/
inductive Performs (w₀ : Workspace) : Nat → Workspace → Prop where
  | nothing : Performs w₀ 0 w₀
  | deed {k : Nat} {w : Workspace} (before : Performs w₀ k w) (deed : Deed)
      (room : w.store.engine.mounted.volume.catalog.nextId.toNat + 2 < UInt32.size)
      (slots : (deed.run.start w).1 ≠ refuse (.sizes .exhausted)) : Performs w₀ (k + 1) (deed.run.start w).2
  | clusterLoaded {k : Nat} {w : Workspace} (before : Performs w₀ k w) (cluster : ClusterId) :
      Performs w₀ k { w with store := ((Store.loadCluster cluster).start w.store).2 }
  | viewed {k : Nat} {w : Workspace} {st : Store} (before : Performs w₀ k w) (views : w.store.Viewed st) :
      Performs w₀ k { w with store := st }

theorem Performs.backed (h : w₀.Performs k w) (hb : w₀.Backed m₀ journal size s n) (hn : n + k < 2 ^ 61) :
    w.Backed m₀ journal size s (n + k) := by
  induction h with
  | nothing => exact hb
  | deed before deed room slots ih => exact (ih (by omega)).deed deed hn room slots
  | clusterLoaded before cluster ih => exact (ih hn).clusterLoaded cluster
  | viewed before views ih => exact (ih hn).viewed views

end Workspace

/-! ## Commits and rollbacks -/

namespace Store.Houses

/-- An operation with room for its commit can be committed. -/
theorem commits (h : st.Houses dir place size s n) (started : Engine.start.Gives st.engine op e) {a : α}
    (hg : t.Gives (.begun st e op) a w) (hb : w.Backed st.engine.mounted e.journal size s k) (hdir : dir.Roomy)
    (storable : w.operation.Storable size) :
    ∃ st', (atomically t).Gives st a st' ∧ w.finish (.ok a) = (.ok a, st') := by
  have hstart := Collection.start_atomically started t
  rw [hg.eq] at hstart
  rcases hf : w.finish (.ok a) with ⟨r, st'⟩
  obtain ⟨rfl, -⟩ := h.committed started hb hdir storable hf
  exact ⟨st', hstart.trans hf, rfl⟩

/-- What was committed could be stored, so that the store has files of clusters. -/
theorem finished (h : st.Houses dir place size s n) (started : Engine.start.Gives st.engine op e)
    (hb : (t.start (.begun st e op)).2.Backed st.engine.mounted e.journal size s k) (hdir : dir.Roomy) {a : α}
    (run : (atomically t).Gives st a st') : ∃ s', st'.Houses dir place size s' k := by
  obtain ⟨-, hfinish⟩ := Collection.finish_of_gives started run
  have hcommitted := hfinish
  rw [Workspace.finish] at hcommitted
  split at hcommitted
  · next hcommit =>
    obtain ⟨-, -, s', hs', -⟩ := h.committed started hb hdir (hb.storable hcommit) hfinish
    exact ⟨s', hs'⟩
  · cases hcommitted

/-- And after one that was given up. -/
theorem undone (h : st.Houses dir place size s n) (started : Engine.start.Gives st.engine op e)
    (hb : (t.start (.begun st e op)).2.Backed st.engine.mounted e.journal size s k) (hk : n ≤ k)
    {cause : Failure CollectionError} (fails : (t.start (.begun st e op)).1 = .error cause) :
    ((atomically t).start st).2.Houses dir place size s k := by
  rw [Collection.start_atomically started, fails]
  exact h.rolledBack started hb hk

theorem viewed (h : st.Houses dir place size s n) (views : st.Viewed st') : st'.Houses dir place size s n := by
  have hb := views.beside
  exact h.later hb.mounted hb.journal.2 (hb.registry ▸ h.housed)

theorem prohibited (h : st.Houses dir place size s n) : (prohibit.start st).2.Houses dir place size s n :=
  h.registry (f := fun r => { r with prohibited := true }) rfl

end Store.Houses

end RefStore
