import RefStore.Proofs.CollectionRuns
import RefStore.Proofs.FileNames
import RefStore.Proofs.HostedCalls
import RefStore.Proofs.MatchedRegistries

/-!
# Registered files

Whatever calls an operation makes, the registry matches the files that the operation sees, and what is noted
for a rollback leads back to what was registered when it began. A call matters only if it looks for a cluster,
makes one or drops one. Main statements: `Workspace.Called.accounted`, `Store.Matched.atomically_registers`.
-/

namespace RefStore

/-- The cluster that a call makes a collection in. -/
def Collection.Call.target? : Collection.Call → Option ClusterId
  | .create c => some c
  | .createOwned _ c _ => some c
  | _ => none

namespace Workspace

variable {size : Nat} {r₀ : Registry} {w : Workspace} {st : ClusterStorage} {names : FileId → Option String}
  {next : FileId} {cluster : ClusterId} {id : StorageId}

/-- Of all calls only those that look for a cluster, make one or drop one, and the steps to take back, matter to
what lasts through the others. -/
theorem Lasting.call {P : Workspace → Prop} (hP : Lasting P) (hcount : Uncounted P) (h : P w) (call : Collection.Call)
    (storage : ∀ c, call.target? = some c → P ((clusterStorage c).start w).2)
    (add : ∀ c, P ((createCluster c).start w).2) (drop : ∀ c, P ((dropCluster c).start w).2)
    (hook : ∀ label, P ((onRollback (.step label)).start w).2) : P (call.run.start w).2 := by
  have hcreate (c : ClusterId) (hc : call.target? = some c) : P ((createCollection c).start w).2 :=
    Task.Keeps.same_bind (checkAccess_same w) h fun _ => Task.Keeps.after (storage c hc) fun _ =>
      hP.createRest hcount c _
  have hplain {α : Type} {t : Task Workspace CollectionError α} (ht : t.Keeps P) :
      P ((Collection.Call.plain t).start w).2 := Task.Keeps.after (ht w h) fun _ => .pure _
  cases call with
  | create c => exact Task.Keeps.after (hcreate c rfl) fun _ => .pure _
  | createOwned session c owner =>
    exact Task.Keeps.after (Task.Keeps.after (hcreate c rfl) fun _ => .pure _) fun _ => .pure _
  | put c r value => exact hplain (hP.put c r value)
  | remove c r => exact hplain (hP.remove c r)
  | get c r => exact hplain (hP.get c r)
  | size c => exact hplain (hP.size c)
  | entries c => exact hplain (hP.entries c)
  | first c => exact hplain (hP.first c)
  | last c => exact hplain (hP.last c)
  | load p => exact hplain (ofStore_keeps fun _ _ => loadCollection_keeps p)
  | delete p => exact Task.Keeps.after (hP.deleteCollection p w h) fun _ => .pure _
  | addCluster c => exact Task.Keeps.after (add c) fun _ => .pure _
  | dropCluster c =>
    rw [Collection.Call.run, (Task.Gives.state w).start_bind]
    exact Task.Keeps.after (drop c) fun _ => .pure _
  | hook label => exact Task.Keeps.after (hook label) fun _ => .pure _

/-! ## Making and dropping a cluster -/

/-- A workspace where a storage was registered. -/
def enrolled (w : Workspace) (t : Transaction) (st : ClusterStorage) : Workspace where
  store := { w.store with
    engine := { w.store.engine with mounted := t.mounted }
    registry := w.store.registry.register st }
  operation := t.operation
  undo := .unregister st.cluster st.treeFile :: w.undo

/-- A workspace where a storage was unregistered. -/
def withdrawn (w : Workspace) (t : Transaction) (st : ClusterStorage) (id : StorageId) : Workspace where
  store := { w.store with
    engine := { w.store.engine with mounted := t.mounted }
    registry := w.store.registry.withdraw st.cluster st.treeFile }
  operation := t.operation
  undo := .register st.cluster st.treeFile id :: w.undo

/-- What may come of making a cluster: nothing, a tree alone where there is a size map already, or a storage
for two new files. -/
inductive MakesCluster (size : Nat) (names : FileId → Option String) (next : FileId) (cluster : ClusterId)
    (w : Workspace) : Workspace → Prop where
  | nothing : MakesCluster size names next cluster w w
  | tree {t : Transaction} {f : FileId} (unregistered : w.store.registry.registeredId? cluster = none)
      (treeless : ∀ f, names f ≠ some (Cluster.treeName cluster)) (taken : names f = some (Cluster.sizesName cluster))
      (titled : t.Titled size (Function.update names next (some (Cluster.treeName cluster))) (next + 1)) :
      MakesCluster size names next cluster w (Part.put t w)
  | storage {t : Transaction} {st : ClusterStorage} (unregistered : w.store.registry.registeredId? cluster = none)
      (treeless : ∀ f, names f ≠ some (Cluster.treeName cluster)) (lt : next < next + 1)
      (owner : st.cluster = cluster) (treeFile : st.treeFile = next) (sizesFile : st.sizesFile = next + 1)
      (titled : t.Titled size (Function.update (Function.update names next (some (Cluster.treeName cluster))) (next + 1)
        (some (Cluster.sizesName cluster))) (next + 1 + 1)) :
      MakesCluster size names next cluster w (w.enrolled t st)

section

variable (h : (Part.get w : Transaction).Titled size names next)

include h

theorem fileExists_gives (x : String) : ∃ b, (onStorage (Transaction.fileExists x)).Gives w b w ∧
    (b = true ↔ ∃ f, names f = some x) := by
  obtain ⟨b, hb, hiff⟩ := h.fileExists x
  exact ⟨b, (hb.mapError CollectionError.storage).onPart, hiff⟩

theorem createCluster_makes (hample : Tree.Ample size)
    (hroom : w.store.volume.catalog.nextId.toNat + 2 < UInt32.size) (cluster : ClusterId) :
    MakesCluster size names next cluster w ((createCluster cluster).start w).2 := by
  refine Task.Keeps.same_bind (checkAccess_same w) .nothing fun _ => ?_
  rw [(Task.Gives.state w).start_bind]
  dsimp only
  split
  · exact .nothing
  next hno =>
  replace hno : w.store.registry.registeredId? cluster = none := by simpa using hno
  obtain ⟨b, hb, hiff⟩ := fileExists_gives h (Cluster.treeName cluster)
  replace hb : (onStorage (Transaction.fileExists (Cluster.storage cluster).tree.fileName)).Gives w b w := hb
  rw [hb.start_bind]
  cases b with
  | true => exact .nothing
  | false =>
    rw [if_neg Bool.false_ne_true]
    have htreeless (f : FileId) : names f ≠ some (Cluster.storage cluster).tree.fileName := fun hf =>
      Bool.false_ne_true (hiff.mpr ⟨f, hf⟩)
    have hnext : w.store.volume.catalog.nextId = next := h.nextId
    rw [hnext] at hroom
    obtain ⟨hlt, hsucc⟩ := Shelved.lt_next (f := next) (by omega)
    obtain ⟨t₁, hg₁, h₁⟩ := h.createTree (by omega) hample htreeless
    have hmade₁ : (onTree (Cluster.storage cluster).tree.create).Gives w _ (Part.put t₁ w) :=
      (hg₁.mapError CollectionError.tree).onPart
    rw [hmade₁.start_bind]
    obtain ⟨b, hb, hiff⟩ := h₁.fileExists (Cluster.sizesName cluster)
    cases b with
    | true =>
      obtain ⟨f, hf⟩ := hiff.mp rfl
      have htaken : names f = some (Cluster.sizesName cluster) := by
        rcases update_cases hf with ⟨-, he⟩ | ⟨-, hf⟩
        · exact absurd (Option.some.inj he) (Cluster.treeName_ne_sizesName _ _)
        · exact hf
      obtain ⟨cause, hfails⟩ := SizeMap.create_taken (m := (Cluster.storage cluster).sizes) hb
      have hrefused : (onSizes (Cluster.storage cluster).sizes.create).start (Part.put t₁ w) =
          (.error (cause.map CollectionError.sizes), Part.put t₁ w) := by
        rw [onSizes, Task.start_onPart, Task.start_mapError]
        rw [show (Part.get (Part.put t₁ w : Workspace) : Transaction) = t₁ from rfl, hfails]
        rfl
      rw [Task.start_bind_error hrefused]
      exact .tree hno htreeless htaken h₁
    | false =>
      have hfree (f : FileId) : Function.update names next (some (Cluster.storage cluster).tree.fileName) f ≠
          some (Cluster.storage cluster).sizes.fileName := fun hf => Bool.false_ne_true (hiff.mpr ⟨f, hf⟩)
      obtain ⟨t₂, hg₂, h₂⟩ := h₁.createSizes (m := (Cluster.storage cluster).sizes) (by omega) hample hfree
      have hmade₂ : (onSizes (Cluster.storage cluster).sizes.create).Gives (Part.put t₁ w) _
          (Part.put t₂ (Part.put t₁ w)) := (hg₂.mapError CollectionError.sizes).onPart
      rw [hmade₂.start_bind]
      exact .storage hno htreeless hlt rfl rfl rfl h₂

/-- The files of a registered storage are deleted, and it is unregistered. -/
theorem dropCluster_gives (hallowed : w.store.registry.prohibited = false)
    (hid : w.store.registry.registeredId? st.cluster = some id) (hst : w.store.registry.storages[id]? = some st)
    (htree : names st.treeFile = some (Cluster.treeName st.cluster))
    (hsizes : names st.sizesFile = some (Cluster.sizesName st.cluster)) : ∃ t,
    t.Titled size (Function.update (Function.update names st.treeFile none) st.sizesFile none) next ∧
      (dropCluster st.cluster).Gives w () (w.withdrawn t st id) := by
  have hatt : st.tree.component.isAttached := decide_eq_true (FileId.ne_none_of_lt (h.lt_of_name htree))
  have hatt' : st.sizes.component.isAttached := decide_eq_true (FileId.ne_none_of_lt (h.lt_of_name hsizes))
  have hne : st.sizesFile ≠ st.treeFile := fun he => by
    rw [he, htree] at hsizes
    exact Cluster.treeName_ne_sizesName _ _ (Option.some.inj hsizes)
  obtain ⟨t₁, hg₁, h₁⟩ := h.deleteFile htree
  obtain ⟨t₂, hg₂, h₂⟩ := h₁.deleteFile (f := st.sizesFile) ((Function.update_of_ne hne _ _).trans hsizes)
  have hdeleted₁ : (onTree st.tree.delete).Gives w () (Part.put t₁ w) :=
    (((Tree.Shows.file_gives hatt _).bind (hg₁.embed.mapError _)).mapError CollectionError.tree).onPart
  have hdeleted₂ : (onSizes st.sizes.delete).Gives (Part.put t₁ w) () (Part.put t₂ (Part.put t₁ w)) :=
    (((SizeMap.Spreads.file_gives hatt' _).bind (hg₂.embed.mapError _)).mapError CollectionError.sizes).onPart
  have hstorage : w.store.registry.storage? st.cluster = some st := by
    rw [Registry.storage?, hid]
    exact hst
  refine ⟨t₂, h₂, (checkAccess_of_allowed hallowed).bind ((Task.Gives.state w).bind ?_)⟩
  dsimp only
  rw [hid, hstorage]
  exact hdeleted₁.bind (hdeleted₂.bind ((Task.Gives.change _ _).onPart.bind (.change _ _)))

end

/-- A cluster is dropped if it has a storage. -/
theorem dropCluster_cases (w : Workspace) (cluster : ClusterId) : ((dropCluster cluster).start w).2 = w ∨
    w.store.registry.prohibited = false ∧ ∃ id st, w.store.registry.registeredId? cluster = some id ∧
      w.store.registry.storages[id]? = some st := by
  cases hallowed : w.store.registry.prohibited with
  | true =>
    rw [dropCluster, Task.start_bind_error (checkAccess_of_prohibited hallowed)]
    exact .inl rfl
  | false =>
    rw [dropCluster, (checkAccess_of_allowed hallowed).start_bind, (Task.Gives.state w).start_bind]
    dsimp only
    cases hid : w.store.registry.registeredId? cluster with
    | none => exact .inl rfl
    | some id =>
      rw [Registry.storage?, hid, Option.bind_some]
      cases hst : w.store.registry.storages[id]? with
      | none => exact .inl rfl
      | some st => exact .inr ⟨rfl, id, st, rfl, hst⟩

/-- A workspace whose clusters are those with files, and whose steps to take back lead to what was registered. -/
structure Accounted (size : Nat) (r₀ : Registry) (w : Workspace) : Prop where
  matched : ∃ names next, (Part.get w : Transaction).Titled size names next ∧ w.store.registry.Matches names
  trail : r₀.Trail w.undo w.store.registry

namespace Accounted

theorem lasting : Lasting (Accounted size r₀) where
  part {ε α t} f ht w h := by
    obtain ⟨names, next, htitled, hmatches⟩ := h.matched
    exact ⟨⟨names, next, ht Transaction.Titled.lasting _ htitled, hmatches⟩, h.trail⟩

theorem uncounted : Uncounted (Accounted size r₀) := by
  intro w n h
  have hextends : w.store.registry.Extends { w.store.registry with counter := n } :=
    ⟨⟨rfl, fun _ => rfl, fun _ => rfl⟩, List.prefix_rfl⟩
  obtain ⟨names, next, htitled, hmatches⟩ := h.matched
  exact ⟨⟨names, next, htitled, hmatches.extend hextends⟩, h.trail.extend hextends⟩

section

variable (h : w.Accounted size r₀)

include h

/-- A cluster that is not registered has no tree file. -/
theorem fileExists_free {cluster : ClusterId} (hno : w.store.registry.registeredId? cluster = none) :
    (onStorage (Transaction.fileExists (Cluster.storage cluster).tree.fileName)).Gives w false w := by
  obtain ⟨names, next, htitled, hmatches⟩ := h.matched
  obtain ⟨b, hb, hiff⟩ := fileExists_gives htitled (Cluster.treeName cluster)
  obtain rfl : b = false := by
    rw [Bool.eq_false_iff, Ne, hiff]
    exact fun ⟨f, hf⟩ => (hmatches.free hno f).1 hf
  exact hb

/-- The files of a cluster are made, and their storage is registered. -/
theorem createCluster (hample : Tree.Ample size)
    (hroom : w.store.volume.catalog.nextId.toNat + 2 < UInt32.size) (cluster : ClusterId) :
    ((createCluster cluster).start w).2.Accounted size r₀ := by
  obtain ⟨names, next, htitled, hmatches⟩ := h.matched
  have hmakes := createCluster_makes htitled hample hroom cluster
  generalize ((Workspace.createCluster cluster).start w).2 = w' at hmakes
  cases hmakes with
  | nothing => exact h
  | tree hno _ htaken _ => exact absurd htaken (hmatches.free hno _).2
  | @storage t st hno _ hlt howner htree hsizes ht =>
    subst howner htree
    have hunseen : names st.treeFile = none := htitled.next_unseen
    have hunseen' : names st.sizesFile = none := by
      rw [Option.eq_none_iff_forall_ne_some, hsizes]
      exact fun x hx => UInt32.lt_irrefl _ (UInt32.lt_trans hlt (htitled.lt_of_name hx))
    rw [← hsizes] at ht hlt
    have hnew := hmatches.register hno (UInt32.ne_of_lt hlt) hunseen hunseen'
    have hextends : w.store.registry.Extends
        ((w.store.registry.register st).undo (.unregister st.cluster st.treeFile)) :=
      ⟨.register_withdraw (hmatches.clusters_free hno) (hmatches.unregistered hunseen), List.prefix_append _ _⟩
    exact ⟨⟨_, _, ht, hnew⟩, .step (h.trail.extend hextends) hnew.inverse⟩

theorem clusterStorage (hample : Tree.Ample size)
    (hroom : w.store.volume.catalog.nextId.toNat + 2 < UInt32.size) (cluster : ClusterId) :
    ((clusterStorage cluster).start w).2.Accounted size r₀ := by
  rw [Workspace.clusterStorage, (Task.Gives.state w).start_bind]
  split
  · exact h
  · next hno =>
    rw [(h.fileExists_free (Option.eq_none_iff_forall_ne_some.mpr hno)).start_bind]
    exact h.createCluster hample hroom cluster

/-- The files of a cluster are deleted, and its storage is unregistered. -/
theorem dropCluster (cluster : ClusterId) : ((dropCluster cluster).start w).2.Accounted size r₀ := by
  rcases dropCluster_cases w cluster with hsame | ⟨hallowed, id, st, hid, hst⟩
  · exact hsame.symm ▸ h
  obtain ⟨f, hc, hf⟩ := Option.bind_eq_some_iff.mp hid
  obtain ⟨names, next, htitled, hmatches⟩ := h.matched
  have htree := hmatches.clusters.mp hc
  obtain ⟨st', hst', rfl, rfl, hsizes⟩ := hmatches.storage htree
  rw [Registry.storageOf?, hf, Option.bind_some, hst] at hst'
  obtain rfl := Option.some.inj hst'
  obtain ⟨t, ht, hg⟩ := dropCluster_gives htitled hallowed hid hst htree hsizes
  rw [hg.eq]
  have hleft := hmatches.withdraw htitled.apart htree hsizes
  have hextends : w.store.registry.Extends
      ((w.store.registry.withdraw st.cluster st.treeFile).undo (.register st.cluster st.treeFile id)) :=
    ⟨.withdraw_enroll hc hf, List.prefix_rfl⟩
  exact ⟨⟨_, _, ht, hleft⟩, .step (h.trail.extend hextends) hleft.inverse⟩

/-- So it stays whatever call is made. -/
theorem call (hample : Tree.Ample size) (hroom : w.store.volume.catalog.nextId.toNat + 2 < UInt32.size)
    (call : Collection.Call) : (call.run.start w).2.Accounted size r₀ :=
  lasting.call uncounted h call (fun c _ => h.clusterStorage hample hroom c) (h.createCluster hample hroom)
    h.dropCluster fun _ => ⟨h.matched, .step h.trail h.trail.inverse⟩

/-- Once it is committed, the catalog lists the files of the registered clusters. -/
theorem committed {e : Engine} (commit : (Engine.commit w.operation).Gives w.store.engine () e) :
    e.mounted.volume.Listed ∧ e.mounted.volume.pageSize = size ∧
      w.store.registry.Matches fun f => e.mounted.volume.catalog.names[f]? := by
  obtain ⟨names, next, htitled, hmatches⟩ := h.matched
  obtain ⟨hlisted, hnames⟩ := htitled.commit commit
  have hsame : (fun f : FileId => e.mounted.volume.catalog.names[f]?) = names := funext hnames
  exact ⟨hlisted, (Engine.commit_pageSize commit).trans htitled.pageSize, hsame ▸ hmatches⟩

end

end Accounted

/-- The calls of an operation, whatever comes of each. -/
inductive Called (w₀ : Workspace) : Workspace → Prop where
  | nothing : Called w₀ w₀
  | call {w : Workspace} (before : Called w₀ w) (call : Collection.Call)
      (room : w.store.volume.catalog.nextId.toNat + 2 < UInt32.size) : Called w₀ (call.run.start w).2

theorem Called.accounted {w₀ : Workspace} (called : Called w₀ w) (hample : Tree.Ample size)
    (h : w₀.Accounted size r₀) : w.Accounted size r₀ := by
  induction called with
  | nothing => exact h
  | call before call room ih => exact ih.call hample room call

end Workspace

namespace Store

/-- A store whose files are listed, with the clusters registered that have a tree file. -/
structure Matched (s : Store) : Prop where
  listed : s.volume.Listed
  ample : Tree.Ample s.volume.pageSize
  registry : s.registry.Matches fun f => s.volume.catalog.names[f]?

variable {α : Type} {s s' : Store} {op : Operation} {e : Engine}

/-- An operation that begins sees the committed files, and has nothing to take back. -/
theorem Matched.begun (h : s.Matched) (started : Engine.start.Gives s.engine op e) :
    (Workspace.begun s e op).Accounted s.volume.pageSize s.registry := by
  obtain ⟨-, rfl, rfl⟩ := Engine.start_eq started
  exact ⟨⟨_, _, .begun h.listed _, h.registry⟩, .start (.refl _) h.registry.inverse⟩

/-- At all times the registry finds the storage of a cluster by its file, and the cluster of a storage. If
an operation is given up, the registry finds what it found before. If it is committed, it finds the clusters
that have a tree file, each by the id of that file. -/
theorem Matched.atomically_registers (h : s.Matched) (started : Engine.start.Gives s.engine op e)
    (t : Task Workspace CollectionError α)
    (called : Workspace.Called (.begun s e op) (t.start (.begun s e op)).2) :
    (∀ w, Workspace.Called (.begun s e op) w → w.store.registry.Inverse ∧
      ∀ n, ((w.undo.take n).foldl Registry.undo w.store.registry).Inverse) ∧
    (∀ cause s', (Store.atomically t).start s = (.error cause, s') → s'.registry.Inverse ∧
      (∀ c : ClusterId, s'.registry.clusters[c]? = s.registry.clusters[c]?) ∧
      ∀ f : FileId, s'.registry.registered[f]? = s.registry.registered[f]? ∧
        s'.registry.storageOf? f = s.registry.storageOf? f) ∧
    ∀ a s', (Store.atomically t).Gives s a s' → s'.Matched ∧ s'.registry.Inverse ∧
      ∀ c : ClusterId, s'.registry.clusters[c]? = s'.volume.idOf? (Cluster.treeName c) := by
  have hbegun := h.begun started
  have haccounted (w : Workspace) (hw : Workspace.Called (.begun s e op) w) := hw.accounted h.ample hbegun
  have hdone := haccounted _ called
  have hrolled {s' : Store} (hs : s'.registry = (t.start (.begun s e op)).2.undo.foldl Registry.undo
      (t.start (.begun s e op)).2.store.registry) : s'.registry.Inverse ∧
        (∀ c : ClusterId, s'.registry.clusters[c]? = s.registry.clusters[c]?) ∧
        ∀ f : FileId, s'.registry.registered[f]? = s.registry.registered[f]? ∧
          s'.registry.storageOf? f = s.registry.storageOf? f := by
    have hback := hdone.trail.rollback
    rw [← hs] at hback
    exact ⟨hback.inverse h.registry.inverse, hback.alike.clusters, fun f =>
      ⟨hback.alike.registered f, hback.storageOf?_eq h.registry.inverse f⟩⟩
  refine ⟨fun w hw => ⟨(haccounted w hw).trail.inverse, (haccounted w hw).trail.inverse_take⟩,
    fun cause s' hr => ?_, fun a s' hr => ?_⟩
  · rw [Collection.start_atomically started] at hr
    rcases hrun : t.start (.begun s e op) with ⟨_ | a, w⟩ <;> rw [hrun] at hr hrolled <;>
      dsimp only [Workspace.finish] at hr
    · obtain ⟨-, rfl⟩ := Prod.mk.inj hr
      exact hrolled rfl
    · split at hr
      · cases hr
      · obtain ⟨-, rfl⟩ := Prod.mk.inj hr
        exact hrolled rfl
  · rw [Task.Gives, Collection.start_atomically started] at hr
    rcases hrun : t.start (.begun s e op) with ⟨_ | a', w⟩ <;> rw [hrun] at hr hdone <;>
      dsimp only [Workspace.finish] at hr
    · cases hr
    · split at hr
      · next engine hcommit =>
        obtain ⟨-, rfl⟩ := Prod.mk.inj hr
        obtain ⟨hlisted, hsize, hmatches⟩ := hdone.committed hcommit
        refine ⟨⟨hlisted, hsize.symm ▸ h.ample, hmatches⟩, hmatches.inverse, fun c => ?_⟩
        refine Option.ext fun f => ?_
        rw [hmatches.clusters]
        exact hlisted.idOf?_eq_some.symm
      · cases hr

/-- A store with the files of one cluster, which have no pages yet. -/
def bare (c : ClusterId) : Store where
  engine :=
    ⟨⟨⟨(Std.TreeMap.empty.insert [Cluster.treeName c] (.file 1)).insert [Cluster.sizesName c] (.file 2), ∅, 3, none⟩,
      { directory := .top
        pageSize := 1024
        poolPages := 1
        catalog := ⟨2, (Std.TreeMap.empty.insert 0 (Cluster.treeName c)).insert 1 (Cluster.sizesName c)⟩
        files := (Std.TreeMap.empty.insert 0 ⟨Cluster.treeName c, ⟨1, ⟨[Cluster.treeName c]⟩, 1024, 0⟩, ∅⟩).insert 1
          ⟨Cluster.sizesName c, ⟨2, ⟨[Cluster.sizesName c]⟩, 1024, 0⟩, ∅⟩ }⟩, ⟨⟨0, false⟩, 1, false⟩⟩
  registry := Registry.empty.register
    ⟨c, (Cluster.storage c).tree.attached 0, (Cluster.storage c).sizes.attached 1⟩

theorem matched_bare (c : ClusterId) : (bare c).Matched := by
  have hnames (f : FileId) : (bare c).volume.catalog.names[f]? =
      Function.update (Function.update (fun _ => none) 0 (some (Cluster.treeName c))) 1
        (some (Cluster.sizesName c)) f := by
    simp [bare, Store.volume, Function.update_apply, Std.TreeMap.getElem?_insert, eq_comm (a := f)]
  have hcases {f : FileId} {x : String} (hf : (bare c).volume.catalog.names[f]? = some x) :
      f = 0 ∧ x = Cluster.treeName c ∨ f = 1 ∧ x = Cluster.sizesName c := by
    rw [hnames, Function.update_apply, Function.update_apply] at hf
    split at hf
    · exact .inr ⟨‹_›, (Option.some.inj hf).symm⟩
    · split at hf
      · exact .inl ⟨‹_›, (Option.some.inj hf).symm⟩
      · cases hf
  have hfiles (f : FileId) : f ∈ (bare c).volume.files ↔ f = 0 ∨ f = 1 := by
    simp [bare, Store.volume, Std.TreeMap.mem_insert, eq_comm (a := f), or_comm]
  have hsize : (bare c).volume.pageSize = 1024 := rfl
  refine ⟨⟨fun {f g x} hf hg => ?_, fun {f x} hf => (hfiles f).mpr ?_, fun {f} hf => ?_⟩,
    by rw [hsize, Tree.Ample]; decide, ?_⟩
  · rcases hcases hf with ⟨rfl, rfl⟩ | ⟨rfl, rfl⟩ <;> rcases hcases hg with ⟨rfl, hx⟩ | ⟨rfl, hx⟩
    · rfl
    · exact absurd hx (Cluster.treeName_ne_sizesName _ _)
    · exact absurd hx.symm (Cluster.treeName_ne_sizesName _ _)
    · rfl
  · exact (hcases hf).imp And.left And.left
  · rcases (hfiles f).mp hf with rfl | rfl
    · exact show (0 : FileId) < 2 by decide
    · exact show (1 : FileId) < 2 by decide
  · rw [funext hnames]
    exact Registry.Matches.empty.register rfl (show (0 : FileId) ≠ 1 by decide) rfl rfl

/-- Whether an operation drops the cluster of the store, makes another one, drops that too and is committed. -/
def replacedRun : Bool :=
  match Engine.start.start (bare 1).engine with
  | (.ok op, e) =>
    match (Collection.Call.dropCluster 1).run.start (.begun (bare 1) e op) with
    | (.ok _, w₁) =>
      match (Collection.Call.addCluster 2).run.start w₁ with
      | (.ok _, w₂) =>
        match (Collection.Call.dropCluster 2).run.start w₂ with
        | (.ok _, w₃) => decide (w₁.store.volume.catalog.nextId = 2 ∧ w₂.store.volume.catalog.nextId = 4) &&
          match (Engine.commit w₃.operation).start w₃.store.engine with
          | (.ok _, e') => decide (e'.mounted.volume.idOf? (Cluster.treeName 1) = none)
          | _ => false
        | _ => false
      | _ => false
    | _ => false
  | _ => false

/-- A cluster is dropped and another one comes and goes. When that is committed no cluster is registered,
and when it is given up the first one is registered as before. -/
theorem registers_after_drop : ∃ (op : Operation) (e : Engine) (t t' : Task Workspace CollectionError Unit)
    (s' s'' : Store), (bare 1).Matched ∧ Engine.start.Gives (bare 1).engine op e ∧
      Workspace.Called (.begun (bare 1) e op) (t.start (.begun (bare 1) e op)).2 ∧
      t'.start (.begun (bare 1) e op) = (refuse .accessProhibited, (t.start (.begun (bare 1) e op)).2) ∧
      (atomically t).Gives (bare 1) () s' ∧ s'.registry.clusters[(1 : ClusterId)]? = none ∧
      (atomically t').start (bare 1) = (refuse .accessProhibited, s'') ∧
      s''.registry.clusters[(1 : ClusterId)]? = some 0 := by
  have hrun : replacedRun = true := by
    decide +kernel
  unfold replacedRun at hrun
  split at hrun
  case h_2 => cases hrun
  case h_1 op e started =>
  split at hrun
  case h_2 => cases hrun
  case h_1 f₁ w₁ hg₁ =>
  split at hrun
  case h_2 => cases hrun
  case h_1 f₂ w₂ hg₂ =>
  split at hrun
  case h_2 => cases hrun
  case h_1 f₃ w₃ hg₃ =>
  rw [Bool.and_eq_true, decide_eq_true_eq] at hrun
  obtain ⟨⟨hnext₁, hnext₂⟩, hrun⟩ := hrun
  split at hrun
  case h_2 => cases hrun
  case h_1 e' hcommit =>
  have called : Workspace.Called (.begun (bare 1) e op) w₃ := by
    have hnext₀ : (Workspace.begun (bare 1) e op).store.volume.catalog.nextId = 2 := by
      obtain ⟨-, -, rfl⟩ := Engine.start_eq started
      rfl
    have hcalled₁ := Workspace.Called.call .nothing (.dropCluster 1) (by rw [hnext₀]; decide)
    rw [hg₁] at hcalled₁
    have hcalled₂ := hcalled₁.call (.addCluster 2) (by rw [hnext₁]; decide)
    rw [hg₂] at hcalled₂
    have hcalled₃ := hcalled₂.call (.dropCluster 2) (by rw [hnext₂]; decide)
    rwa [hg₃] at hcalled₃
  have ht : (do
      let _ ← (Collection.Call.dropCluster 1).run
      let _ ← (Collection.Call.addCluster 2).run
      let _ ← (Collection.Call.dropCluster 2).run : Task Workspace CollectionError Unit).Gives
        (.begun (bare 1) e op) () w₃ :=
    Task.Gives.bind hg₁ (Task.Gives.bind hg₂ (Task.Gives.bind hg₃ (.pure () w₃)))
  generalize (do
      let _ ← (Collection.Call.dropCluster 1).run
      let _ ← (Collection.Call.addCluster 2).run
      let _ ← (Collection.Call.dropCluster 2).run : Task Workspace CollectionError Unit) = t at ht
  obtain ⟨t', ht'⟩ : ∃ t' : Task Workspace CollectionError Unit,
      t'.start (.begun (bare 1) e op) = (refuse .accessProhibited, w₃) :=
    ⟨t >>= fun _ => refuse .accessProhibited, ht.start_bind _⟩
  have hdone : (atomically t).Gives (bare 1) () { w₃.store with engine := e' } := by
    rw [Task.Gives, Collection.start_atomically started, ht.eq, Workspace.finish, hcommit]
  have hgivenUp : (atomically t').start (bare 1) = (refuse .accessProhibited, w₃.rollback) := by
    rw [Collection.start_atomically started, ht']
    rfl
  have hcommitted := ((matched_bare 1).atomically_registers started t (by rwa [ht.eq])).2.2 _ _ hdone
  have hrolled := ((matched_bare 1).atomically_registers started t' (by rwa [ht'])).2.1 _ _ hgivenUp
  refine ⟨op, e, t, t', { w₃.store with engine := e' }, w₃.rollback, matched_bare 1, started, by rwa [ht.eq],
    by rw [ht', ht.eq], hdone, ?_, hgivenUp, ?_⟩
  · rw [hcommitted.2.2 1]
    exact of_decide_eq_true hrun
  · rw [hrolled.2.1 1]
    rfl

end Store

end RefStore
