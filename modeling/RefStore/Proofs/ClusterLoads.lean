import RefStore.Proofs.GroundedRegistries
import RefStore.Proofs.LoadedClusters

/-!
# Loading clusters in an operation

Clusters can be loaded and the registry cleared at any time, inside an operation and between operations.
A cluster is loaded from the committed files, whether or not the operation has deleted them. While no load
brings back what the operation has deleted, every registered cluster has its files whenever no operation
is in flight. A cluster that is dropped and loaded in one operation stays registered without files. Main
statements: `Store.Managed.clusters_have_files`, `Store.Grounded.dropped_then_loaded`.
-/

namespace RefStore

/-! ## Names in the catalog -/

namespace Transaction

/-- What is done to pages leaves the names in the catalog alone. -/
theorem Lasting.ofNames (P : Std.TreeMap FileId String → Prop) :
    Lasting fun t => P t.mounted.volume.catalog.names where
  load file i t h := by
    show P ((Mounted.loadPage file i).start t.mounted).2.volume.catalog.names
    rwa [(Mounted.Unchanged.loaded t.mounted file i).names]
  note _ _ _ h := h
  count _ _ h := h

/-- Pages that are loaded for another operation are loaded for this one. -/
theorem Lasting.aside {P : Transaction → Prop} (h : Lasting P) (op : Operation) :
    Lasting fun t => P ⟨t.mounted, op⟩ where
  load file i t ht := h.load file i ⟨t.mounted, op⟩ ht
  note _ _ _ ht := ht
  count _ _ ht := ht

theorem addFile_keepsNames (P : Std.TreeMap FileId String → Prop) (x : String) :
    (addFile x).Keeps fun t => P t.mounted.volume.catalog.names := by
  refine .bind (fileExists_keeps x) fun _ => .guarded (.refuse _) ?_
  refine .bind (t := (liftM Mounted.reserveId : Task Transaction StorageError FileId)) (fun t h => h) fun id => ?_
  exact .bind (.change fun t h => h) fun _ => .pure _

theorem deleteFile_keepsNames (P : Std.TreeMap FileId String → Prop) (f : FileId) :
    (deleteFile f).Keeps fun t => P t.mounted.volume.catalog.names :=
  .bind (pageCount_keeps f) fun _ => .change fun _ h => h

variable {size : Nat} {names : FileId → Option String} {next f : FileId} {t : Transaction} {x : String}

/-- A committed file has a name in the operation only if it has that name. -/
theorem Titled.gone_or_seen (h : t.Titled size names next) (hf : t.mounted.volume.catalog.names[f]? = some x) :
    names f = none ∨ names f = some x := by
  cases hy : names f with
  | none => exact .inl rfl
  | some y =>
    rcases h.visible.mpr hy with hc | ⟨hname, -⟩
    · exact absurd (h.listed.opened hf) (h.made hc).2
    · exact .inr (hname.symm.trans hf)

/-- A committed file that has a name has not been deleted. -/
theorem Titled.undeleted {y : String} (h : t.Titled size names next) (hf : t.mounted.volume.catalog.names[f]? = some x)
    (hn : names f = some y) : f ∉ t.operation.deleted := by
  rcases h.visible.mpr hn with hc | ⟨-, hkept⟩
  · exact absurd (h.listed.opened hf) (h.made hc).2
  · exact hkept

theorem Titled.committed_lt (h : t.Titled size names next) (hf : t.mounted.volume.catalog.names[f]? = some x) :
    f < next := h.reaches (.inr (h.listed.opened hf))

end Transaction

/-! ## Operations -/

/-- Whether an operation has left the committed files of a cluster that has both. -/
def Operation.Retains (op : Operation) (kept : FileId → Option String) (c : ClusterId) : Prop :=
  ∀ {f g}, kept f = some (Cluster.treeName c) → kept g = some (Cluster.sizesName c) → f ∉ op.deleted ∧ g ∉ op.deleted

namespace Workspace

/-- Whether the operation has left the committed files of a cluster. -/
def Retains (w : Workspace) (c : ClusterId) : Prop := w.operation.Retains (fun f => w.store.volume.catalog.names[f]?) c

variable {size : Nat} {kept names : FileId → Option String} {next f g k : FileId} {w : Workspace} {c : ClusterId}
  {x : String}

/-- An operation that sees files with some names, over committed files with others. Every registered cluster
has its files. A cluster with committed files has kept them, or lost both, and what it has instead is registered. -/
structure Sees (size : Nat) (kept names : FileId → Option String) (next : FileId) (w : Workspace) : Prop where
  committed : ∀ f : FileId, w.store.volume.catalog.names[f]? = kept f
  titled : (Part.get w : Transaction).Titled size names next
  grounded : w.store.registry.Grounded names
  clear : ∀ u ∈ w.undo, u.Clear kept names
  whole : ∀ {c f g}, kept f = some (Cluster.treeName c) → kept g = some (Cluster.sizesName c) →
    names f = some (Cluster.treeName c) ∧ names g = some (Cluster.sizesName c) ∨ c ∈ w.store.registry.clusters ∨
      Cluster.Absent names c

/-- An operation over committed files. If it were given up, every registered cluster would have its files too. -/
structure Grounded (size : Nat) (kept : FileId → Option String) (w : Workspace) : Prop where
  now : ∃ names next, w.Sees size kept names next
  back : (w.undo.foldl Registry.undo w.store.registry).Grounded kept

/-- To make a cluster leaves the names in the catalog alone. -/
theorem createCluster_keepsNames (P : Std.TreeMap FileId String → Prop) (c : ClusterId) :
    (createCluster c).Keeps fun w => P w.store.volume.catalog.names := by
  have hlasts := Transaction.Lasting.ofNames P
  refine .bind (ofStore_keeps fun _ _ => checkAccess_keeps) fun _ => .bind .state fun w => .guarded (.refuse _) ?_
  have hexists : (onStorage (Transaction.fileExists (Cluster.storage c).tree.fileName)).Keeps
      fun w => P w.store.volume.catalog.names := fun w h =>
    Transaction.fileExists_keeps (P := fun t => P t.mounted.volume.catalog.names) _ (Part.get w) h
  refine .bind hexists fun _ => .guarded (.refuse _) ?_
  refine .bind (fun w h => ?_) fun tree => .bind (fun w h => ?_) fun sizes => ?_
  · exact Tree.create_lasts hlasts _ (t := Part.get w) (Transaction.addFile_keepsNames P _ _ h)
  · exact SizeMap.create_lasts hlasts _ (t := Part.get w) (Transaction.addFile_keepsNames P _ _ h)
  · exact .bind (ofStore_keeps fun _ _ => .change fun _ h => h) fun _ => .bind (.change fun _ h => h) fun _ => .pure _

/-- So does it to drop one. -/
theorem dropCluster_keepsNames (P : Std.TreeMap FileId String → Prop) (c : ClusterId) :
    (dropCluster c).Keeps fun w => P w.store.volume.catalog.names := by
  refine .bind (ofStore_keeps fun _ _ => checkAccess_keeps) fun _ => .bind .state fun w => ?_
  dsimp only
  split
  · next id st hid hst =>
    have htree : st.tree.delete.Keeps fun t => P t.mounted.volume.catalog.names :=
      .bind (Tree.file_lasts _) fun f => Transaction.deleteFile_keepsNames P f
    have hsizes : st.sizes.delete.Keeps fun t => P t.mounted.volume.catalog.names :=
      .bind (SizeMap.file_lasts _) fun f => Transaction.deleteFile_keepsNames P f
    refine .bind (fun w h => htree (Part.get w) h) fun _ => .bind (fun w h => hsizes (Part.get w) h) fun _ => ?_
    exact .bind (ofStore_keeps fun _ _ => .change fun _ h => h) fun _ => .change fun _ h => h
  · exact .refuse _

namespace Sees

section

variable (h : w.Sees size kept names next)

include h

theorem kept_lt (hf : kept f = some x) : f < next := h.titled.committed_lt ((h.committed f).trans hf)

theorem gone_or_seen (hf : kept f = some x) : names f = none ∨ names f = some x :=
  h.titled.gone_or_seen ((h.committed f).trans hf)

/-- The files of a cluster that has both in the catalog and either of them in sight. -/
theorem both (hno : w.store.registry.registeredId? c = none) (hf : kept f = some (Cluster.treeName c))
    (hg : kept g = some (Cluster.sizesName c))
    (hk : names k = some (Cluster.treeName c) ∨ names k = some (Cluster.sizesName c)) :
    names f = some (Cluster.treeName c) ∧ names g = some (Cluster.sizesName c) := by
  rcases h.whole hf hg with hboth | hc | hnone
  · exact hboth
  · rw [Std.TreeMap.mem_iff_isSome_getElem?, h.grounded.clusters_free hno] at hc
    cases hc
  · exact (hk.elim (hnone k).1 (hnone k).2).elim

variable {t : Transaction} (same : ∀ f : FileId, t.mounted.volume.catalog.names[f]? = kept f)

include same

/-- A tree is made for a cluster that has a size map left over. -/
theorem treeMade (hno : w.store.registry.registeredId? c = none)
    (treeless : ∀ f, names f ≠ some (Cluster.treeName c)) (taken : names k = some (Cluster.sizesName c))
    (ht : t.Titled size (Function.update names next (some (Cluster.treeName c))) (next + 1)) :
    (Part.put t w : Workspace).Sees size kept (Function.update names next (some (Cluster.treeName c))) (next + 1) := by
  have hold {v : Option String} {f : FileId} (hf : f < next) : Function.update names next v f = names f :=
    Function.update_of_ne (UInt32.ne_of_lt hf) _ _
  refine ⟨same, ht, h.grounded.mono fun hf => (hold (h.titled.lt_of_name hf)).trans hf,
    fun u hu => (h.clear u hu).mono fun hg hn => (hold (h.kept_lt hg)).trans hn, fun {d f g} hf hg => ?_⟩
  have hne : d ≠ c := by
    rintro rfl
    exact treeless f (h.both hno hf hg (.inr taken)).1
  rw [hold (h.kept_lt hf), hold (h.kept_lt hg)]
  exact (h.whole hf hg).imp_right fun hw => hw.imp_right fun hnone => hnone.update (Ne.symm hne) (.inl rfl) next

/-- Two files are made for a cluster, and their storage is registered. -/
theorem enrolled {st : ClusterStorage} (treeless : ∀ f, names f ≠ some (Cluster.treeName st.cluster))
    (lt : next < next + 1) (treeFile : st.treeFile = next) (sizesFile : st.sizesFile = next + 1)
    (ht : t.Titled size (Function.update (Function.update names next (some (Cluster.treeName st.cluster))) (next + 1)
      (some (Cluster.sizesName st.cluster))) (next + 1 + 1)) :
    (w.enrolled t st).Sees size kept (Function.update (Function.update names next
      (some (Cluster.treeName st.cluster))) (next + 1) (some (Cluster.sizesName st.cluster))) (next + 1 + 1) := by
  have hold {v v' : Option String} {f : FileId} (hf : f < next) :
      Function.update (Function.update names next v) (next + 1) v' f = names f :=
    (Function.update_of_ne (UInt32.ne_of_lt (UInt32.lt_trans hf lt)) _ _).trans
      (Function.update_of_ne (UInt32.ne_of_lt hf) _ _)
  have hnew : w.store.registry.Grounded (Function.update (Function.update names next
      (some (Cluster.treeName st.cluster))) (next + 1) (some (Cluster.sizesName st.cluster))) :=
    h.grounded.mono fun hf => (hold (h.titled.lt_of_name hf)).trans hf
  refine ⟨same, ht, hnew.register ?_ ?_, fun u hu => ?_, fun {d f g} hf hg => ?_⟩
  · rw [treeFile, Function.update_of_ne (UInt32.ne_of_lt lt), Function.update_self]
  · rw [sizesFile, Function.update_self]
  · rcases List.mem_cons.mp hu with rfl | hu
    · rintro _ _ ⟨⟩
      refine ⟨fun g hg => ?_, fun x hx => ?_⟩
      · exact (hold (h.kept_lt hg)).trans ((h.gone_or_seen hg).resolve_right (treeless g))
      · exact absurd (h.kept_lt hx) (treeFile ▸ UInt32.lt_irrefl _)
    · exact (h.clear u hu).mono fun hg hn => (hold (h.kept_lt hg)).trans hn
  · by_cases hd : d = st.cluster
    · exact .inr (.inl (Std.TreeMap.mem_insert.mpr (.inl (by simp [hd]))))
    rw [hold (h.kept_lt hf), hold (h.kept_lt hg)]
    refine (h.whole hf hg).imp_right fun hw => hw.imp (fun hm => Std.TreeMap.mem_insert.mpr (.inr hm)) fun hnone => ?_
    exact (hnone.update (Ne.symm hd) (.inl rfl) next).update (Ne.symm hd) (.inr rfl) (next + 1)

/-- The files of a storage are deleted, and it is unregistered. -/
theorem withdrawn {st : ClusterStorage} (id : StorageId)
    (htree : names st.treeFile = some (Cluster.treeName st.cluster))
    (hsizes : names st.sizesFile = some (Cluster.sizesName st.cluster))
    (ht : t.Titled size (Function.update (Function.update names st.treeFile none) st.sizesFile none) next) :
    (w.withdrawn t st id).Sees size kept
      (Function.update (Function.update names st.treeFile none) st.sizesFile none) next := by
  have hgone {g : FileId} (hn : names g = none) :
      Function.update (Function.update names st.treeFile none) st.sizesFile none g = none := by
    rw [Function.update_apply, Function.update_apply, hn]
    split <;> [rfl; split <;> rfl]
  refine ⟨same, ht, h.grounded.withdraw htree hsizes, fun u hu => ?_, fun {d f g} hf hg => ?_⟩
  · rcases List.mem_cons.mp hu with rfl | hu
    · rintro _ _ ⟨⟩
      refine ⟨fun g hg => ?_, fun x hx => ?_⟩
      · rcases h.gone_or_seen hg with hn | hn
        · exact hgone hn
        · rw [h.titled.apart hn htree, Function.update_apply, Function.update_self, ite_self]
      · rcases h.gone_or_seen hx with hn | hn
        · rw [htree] at hn
          cases hn
        · exact Option.some.inj (hn.symm.trans htree)
    · exact (h.clear u hu).mono fun _ hn => hgone hn
  · by_cases hd : d = st.cluster
    · exact .inr (.inr (hd ▸ Cluster.absent_of_forget h.titled.apart htree hsizes))
    rcases h.whole hf hg with ⟨hnf, hng⟩ | hm | hno
    · exact .inl ⟨(Cluster.names_left htree hsizes hd (.inl rfl)).mpr hnf,
        (Cluster.names_left htree hsizes hd (.inr rfl)).mpr hng⟩
    · exact .inr (.inl (Std.TreeMap.mem_erase.mpr ⟨by simpa using Ne.symm hd, hm⟩))
    · exact .inr (.inr ((hno.forget _).forget _))

end

end Sees

namespace Grounded

theorem counted (h : w.Grounded size kept) (n : CollectionId) :
    Grounded size kept { w with store := { w.store with registry := { w.store.registry with counter := n } } } := by
  obtain ⟨names, next, hs⟩ := h.now
  have hsame := Registry.Includes.counted w.store.registry n
  exact ⟨⟨names, next, hs.committed, hs.titled, hsame.grounded hs.grounded, hs.clear, hs.whole⟩,
    (hsame.foldl_undo _).grounded h.back⟩

theorem uncounted : Uncounted (Grounded size kept) := fun n h => h.counted n

/-- Clusters may be forgotten as long as the operation has left all committed files. -/
theorem close (h : w.Grounded size kept) (hop : ∀ c, w.operation.Retains kept c) :
    Grounded size kept { w with store := { w.store with registry := w.store.registry.close } } := by
  obtain ⟨names, next, hs⟩ := h.now
  have hless := Registry.Includes.close w.store.registry
  refine ⟨⟨names, next, hs.committed, hs.titled, hless.grounded hs.grounded, hs.clear, fun {c f g} hf hg => .inl ?_⟩,
    (hless.foldl_undo _).grounded h.back⟩
  obtain ⟨hf', hg'⟩ := hop c hf hg
  exact ⟨hs.titled.visible.mp (.inr ⟨(hs.committed f).trans hf, hf'⟩),
    hs.titled.visible.mp (.inr ⟨(hs.committed g).trans hg, hg'⟩)⟩

/-- What is done to pages leaves an operation its files. -/
theorem onPages (h : w.Grounded size kept) {t : Transaction}
    (ht : ∀ {P : Transaction → Prop}, Transaction.Lasting P → P (Part.get w) → P t) :
    (Part.put t w : Workspace).Grounded size kept := by
  obtain ⟨names, next, hs⟩ := h.now
  have htitled : t.Titled size names next := ht Transaction.Titled.lasting hs.titled
  have hcommitted := ht (.ofNames fun m => ∀ f : FileId, m[f]? = kept f) hs.committed
  exact ⟨⟨names, next, hcommitted, htitled, hs.grounded, hs.clear, hs.whole⟩, h.back⟩

theorem lasting : Lasting (Grounded size kept) where
  part _ ht w h := h.onPages fun hP => ht hP (Part.get w)

/-- To count on from the ids of a cluster at most loads pages. -/
theorem advanceCounter_keeps (op : Operation) (undo : List Undo) (c : ClusterId) :
    (Store.advanceCounter c).Keeps fun st => Grounded size kept ⟨st, op, undo⟩ := by
  refine .bind .state fun st => ?_
  split
  · next x hx =>
    refine .bind (view_keeps fun w h => ?_) fun key => ?_
    · exact h.onPages (t := ⟨_, op⟩) fun hP => Tree.lastKey_lasts (hP.aside op) x.tree (Part.get w)
    · split
      · exact .change fun st h => h.counted _
      · exact .pure _
  · exact .pure _

/-- A cluster is loaded whose committed files the operation has left. -/
theorem loadCluster {st : Store} {op : Operation} {undo : List Undo} (h : Grounded size kept ⟨st, op, undo⟩)
    (hop : c ∉ st.registry.clusters → op.Retains kept c) :
    Grounded size kept ⟨((Store.loadCluster c).start st).2, op, undo⟩ := by
  refine Task.Keeps.same_bind (P := fun st => Grounded size kept ⟨st, op, undo⟩) checkAccess_keeps h fun _ => ?_
  rw [(Task.Gives.state st).start_bind]
  split
  · exact h
  next hno =>
  dsimp only
  split
  · exact h
  · exact h
  next tree sizes htree hsizes =>
  obtain ⟨f, hf, rfl⟩ := Option.map_eq_some_iff.mp htree
  obtain ⟨g, hg, rfl⟩ := Option.map_eq_some_iff.mp hsizes
  obtain ⟨names, next, hs⟩ := h.now
  have hf : st.volume.catalog.names[f]? = some (Cluster.treeName c) := hs.titled.listed.idOf?_eq_some.mp hf
  have hg : st.volume.catalog.names[g]? = some (Cluster.sizesName c) := hs.titled.listed.idOf?_eq_some.mp hg
  have hkf := (hs.committed f).symm.trans hf
  have hkg := (hs.committed g).symm.trans hg
  have hfree : c ∉ st.registry.clusters := by
    rw [Std.TreeMap.mem_iff_isSome_getElem?, hs.grounded.clusters_free (Option.eq_none_iff_forall_ne_some.mpr hno)]
    exact Bool.false_ne_true
  obtain ⟨hf', hg'⟩ := hop hfree hkf hkg
  have hnf : names f = some (Cluster.treeName c) := hs.titled.visible.mp (.inr ⟨hf, hf'⟩)
  have hng : names g = some (Cluster.sizesName c) := hs.titled.visible.mp (.inr ⟨hg, hg'⟩)
  refine ⟨⟨names, next, hs.committed, hs.titled, hs.grounded.register hnf hng, hs.clear, fun hf hg => ?_⟩, ?_⟩
  · exact (hs.whole hf hg).imp_right fun h => h.imp_left fun h => Std.TreeMap.mem_insert.mpr (.inr h)
  -- no step to take back is about this cluster, for its tree file is seen
  refine (Registry.foldl_undo_register fun u hu c' f' hentry => ?_).grounded (h.back.register hkf hkg)
  obtain ⟨hgone, hname⟩ := hs.clear u hu c' f' hentry
  have hne : c' ≠ c := by
    rintro rfl
    rw [hgone f hkf] at hnf
    cases hnf
  refine ⟨hne, ?_⟩
  rintro rfl
  exact hne (Cluster.treeName_injective (hname _ hkf).symm)

/-- A cluster is made, or found to be there, or found to have a size map left over. -/
theorem createCluster (h : w.Grounded size kept) (hample : Tree.Ample size)
    (hroom : w.store.volume.catalog.nextId.toNat + 2 < UInt32.size) (c : ClusterId) :
    ((createCluster c).start w).2.Grounded size kept := by
  obtain ⟨names, next, hs⟩ := h.now
  have hcommitted := createCluster_keepsNames (fun m => ∀ f : FileId, m[f]? = kept f) c w hs.committed
  have hmakes := createCluster_makes hs.titled hample hroom c
  generalize ((Workspace.createCluster c).start w).2 = w' at hmakes hcommitted
  cases hmakes with
  | nothing => exact h
  | tree hno treeless taken ht => exact ⟨⟨_, _, hs.treeMade hcommitted hno treeless taken ht⟩, h.back⟩
  | storage _ treeless lt howner htree hsizes ht =>
    subst howner
    refine ⟨⟨_, _, hs.enrolled hcommitted treeless lt htree hsizes ht⟩, ?_⟩
    refine ((Registry.Includes.register_withdraw fun d hd => ?_).foldl_undo w.undo).grounded h.back
    have hname := (hs.grounded d _ hd).1
    rw [htree, hs.titled.next_unseen] at hname
    cases hname

/-- A cluster is found that has a tree in sight, or it is made. -/
theorem clusterStorage (h : w.Grounded size kept) (hample : Tree.Ample size)
    (hroom : w.store.volume.catalog.nextId.toNat + 2 < UInt32.size) (c : ClusterId) :
    ((clusterStorage c).start w).2.Grounded size kept := by
  rw [Workspace.clusterStorage, (Task.Gives.state w).start_bind]
  split
  · exact h
  next hno =>
  replace hno := Option.eq_none_iff_forall_ne_some.mpr hno
  obtain ⟨names, next, hs⟩ := h.now
  obtain ⟨b, hb, hiff⟩ := fileExists_gives hs.titled (Cluster.treeName c)
  replace hb : (onStorage (Transaction.fileExists (Cluster.storage c).tree.fileName)).Gives w b w := hb
  rw [hb.start_bind]
  cases b with
  | false => exact h.createCluster hample hroom c
  | true =>
    obtain ⟨k, hk⟩ := hiff.mp rfl
    have hload : ((liftM (Store.loadCluster c) : Task Workspace CollectionError _).start w).2.Grounded size kept := by
      refine h.loadCluster fun _ f g hf hg => ?_
      obtain ⟨hnf, hng⟩ := hs.both hno hf hg (.inl hk)
      exact ⟨hs.titled.undeleted ((hs.committed f).trans hf) hnf, hs.titled.undeleted ((hs.committed g).trans hg) hng⟩
    have hvolume : ((liftM (Store.loadCluster c) : Task Workspace CollectionError _).start w).2.store.volume =
        w.store.volume := congrArg (·.mounted.volume) (loadCluster_keeps_engine c _ w.store rfl)
    rw [if_pos rfl, Task.start_bind]
    rcases hr : (liftM (Store.loadCluster c) : Task Workspace CollectionError _).start w with ⟨_ | loaded, w'⟩ <;>
      rw [hr] at hload hvolume
    · exact hload
    · cases loaded with
      | some id => exact hload
      | none => exact hload.createCluster hample (hvolume.symm ▸ hroom) c

theorem dropCluster (h : w.Grounded size kept) (c : ClusterId) : ((dropCluster c).start w).2.Grounded size kept := by
  rcases dropCluster_cases w c with hsame | ⟨hallowed, id, st, hid, hst⟩
  · exact hsame.symm ▸ h
  obtain ⟨names, next, hs⟩ := h.now
  obtain ⟨rfl, hc, hreg, htree, hsizes⟩ := hs.grounded.of_registeredId? hid hst
  have hcommitted := dropCluster_keepsNames (fun m => ∀ f : FileId, m[f]? = kept f) st.cluster w hs.committed
  obtain ⟨t, ht, hg⟩ := dropCluster_gives hs.titled hallowed hid hst htree hsizes
  rw [hg.eq] at hcommitted ⊢
  exact ⟨⟨_, _, hs.withdrawn hcommitted id htree hsizes ht⟩,
    ((Registry.Includes.withdraw_enroll hc hreg).foldl_undo w.undo).grounded h.back⟩

theorem hooked (h : w.Grounded size kept) (label : String) :
    Grounded size kept { w with undo := .step label :: w.undo } := by
  obtain ⟨names, next, hs⟩ := h.now
  refine ⟨⟨names, next, hs.committed, hs.titled, hs.grounded, fun u hu => ?_, hs.whole⟩, h.back⟩
  rcases List.mem_cons.mp hu with rfl | hu
  · rintro _ _ ⟨⟩
  · exact hs.clear u hu

/-- So it stays whatever call is made. -/
theorem call (h : w.Grounded size kept) (hample : Tree.Ample size)
    (hroom : w.store.volume.catalog.nextId.toNat + 2 < UInt32.size) (call : Collection.Call) :
    (call.run.start w).2.Grounded size kept :=
  lasting.call uncounted h call (fun c _ => h.clusterStorage hample hroom c) (h.createCluster hample hroom)
    h.dropCluster h.hooked

end Grounded

end Workspace

/-! ## Loading and closing at any time -/

namespace Store

/-- What a store can be asked for in an operation and outside of one. -/
inductive Request where
  | load (cluster : ClusterId)
  | loadExisting
  | close

/-- A store that was asked for something. To close its collections leaves the files alone. -/
def Request.after : Request → Store → Store
  | load c, s => ((loadCluster c).start s).2
  | loadExisting, s => (Store.loadExisting.start s).2
  | close, s => { s with registry := s.registry.close }

/-- Whether an operation has left the files that a request may bring back. -/
def Request.Safe (w : Workspace) : Request → Prop
  | load c => c ∉ w.store.registry.clusters → w.Retains c
  | loadExisting => ∀ c ∉ w.store.registry.clusters, w.Retains c
  | close => ∀ c, w.Retains c

variable {P : ClusterId → Prop}

/-- To load a cluster unregisters none. -/
theorem loadCluster_keepsClusters (c : ClusterId) : (loadCluster c).Keeps fun s => ∀ d ∉ s.registry.clusters, P d := by
  refine .bind Workspace.checkAccess_keeps fun _ => .bind .state fun s => ?_
  split
  · exact .pure _
  · dsimp only
    split
    · exact .pure _
    · exact .refuse _
    · refine .bind (.change fun s h d hd => h d fun hm => ?_) fun _ => .pure _
      exact hd (Std.TreeMap.mem_insert.mpr (.inr hm))

theorem advanceCounter_keepsClusters (c : ClusterId) :
    (advanceCounter c).Keeps fun s => ∀ d ∉ s.registry.clusters, P d := by
  refine .bind .state fun s => ?_
  split
  · refine .bind (Workspace.view_keeps fun w h => h) fun key => ?_
    split
    · exact .change fun _ h => h
    · exact .pure _
  · exact .pure _

end Store

namespace Workspace

variable {size : Nat} {kept : FileId → Option String} {w w₀ : Workspace}

theorem Grounded.request (h : w.Grounded size kept) (request : Store.Request) (safe : request.Safe w) :
    Grounded size kept { w with store := request.after w.store } := by
  obtain ⟨names, next, hs⟩ := h.now
  have hkept : (fun f : FileId => w.store.volume.catalog.names[f]?) = kept := funext hs.committed
  cases request with
  | load c => exact h.loadCluster (hkept ▸ safe)
  | loadExisting =>
    have hkeeps : Store.loadExisting.Keeps fun s =>
        Grounded size kept ⟨s, w.operation, w.undo⟩ ∧ ∀ c ∉ s.registry.clusters, w.operation.Retains kept c := by
      refine loadExisting_keeps (fun c s hs => ⟨hs.1.loadCluster (hs.2 c), ?_⟩) fun c => ?_
      · exact Store.loadCluster_keepsClusters c s hs.2
      · exact (Grounded.advanceCounter_keeps _ _ c).and (Store.advanceCounter_keepsClusters c)
    exact (hkeeps w.store ⟨h, hkept ▸ safe⟩).1
  | close => exact h.close (hkept ▸ safe)

/-- The calls of an operation and what its store is asked for meanwhile, whatever comes of each. No request
may bring back what the operation has deleted. -/
inductive Managed (w₀ : Workspace) : Workspace → Prop where
  | nothing : Managed w₀ w₀
  | call {w : Workspace} (before : Managed w₀ w) (call : Collection.Call)
      (room : w.store.volume.catalog.nextId.toNat + 2 < UInt32.size) : Managed w₀ (call.run.start w).2
  | asked {w : Workspace} (before : Managed w₀ w) (request : Store.Request) (safe : request.Safe w) :
      Managed w₀ { w with store := request.after w.store }

theorem Managed.grounded (managed : Managed w₀ w) (hample : Tree.Ample size) (h : w₀.Grounded size kept) :
    w.Grounded size kept := by
  induction managed with
  | nothing => exact h
  | call before call room ih => exact ih.call hample room call
  | asked before request safe ih => exact ih.request request safe

end Workspace

namespace Store

/-- A store whose files are listed, with the files of every registered cluster among them. -/
structure Grounded (s : Store) : Prop where
  listed : s.volume.Listed
  ample : Tree.Ample s.volume.pageSize
  registry : s.registry.Grounded fun f => s.volume.catalog.names[f]?

variable {s s₀ s' : Store} {w : Workspace} {size : Nat} {kept : FileId → Option String} {op : Operation}
  {e : Engine} {c : ClusterId}

/-- With the clusters registered that have a tree file, every registered cluster has its files. -/
theorem Matched.grounded (h : s.Matched) : s.Grounded where
  listed := h.listed
  ample := h.ample
  registry c f hc := by
    have hname := h.registry.clusters.mp hc
    exact ⟨hname, h.registry.storage hname⟩

/-- An operation that begins sees the committed files. -/
theorem Grounded.begun (h : s.Grounded) (he : e.mounted = s.engine.mounted) (id : OperationId) :
    Workspace.Grounded s.volume.pageSize (fun f => s.volume.catalog.names[f]?) (.begun s e (.fresh id)) := by
  obtain ⟨m, j⟩ := e
  obtain rfl : m = s.engine.mounted := he
  have hs : (Workspace.begun s ⟨s.engine.mounted, j⟩ (.fresh id)).Sees s.volume.pageSize
      (fun f => s.volume.catalog.names[f]?) (fun f => s.volume.catalog.names[f]?) s.volume.catalog.nextId :=
    ⟨fun _ => rfl, .begun h.listed id, h.registry, fun _ hu => absurd hu List.not_mem_nil, fun hf hg => .inl ⟨hf, hg⟩⟩
  exact ⟨⟨_, _, hs⟩, h.registry⟩

theorem Grounded.started (h : s.Grounded) (started : Engine.start.Gives s.engine op e) :
    Workspace.Grounded s.volume.pageSize (fun f => s.volume.catalog.names[f]?) (.begun s e op) := by
  obtain ⟨-, rfl, he⟩ := Engine.start_eq started
  exact h.begun (by rw [he]) _

/-- An operation is given up. -/
theorem Grounded.rolledBack (h : w.Grounded size kept) (hample : Tree.Ample size) : w.rollback.Grounded := by
  obtain ⟨names, next, hs⟩ := h.now
  have hkept : (fun f : FileId => w.store.volume.catalog.names[f]?) = kept := funext hs.committed
  have hsize : w.store.volume.pageSize = size := hs.titled.pageSize
  exact ⟨hs.titled.listed, hsize.symm ▸ hample, hkept ▸ h.back⟩

/-- An operation is committed. -/
theorem Grounded.committed (h : w.Grounded size kept) (hample : Tree.Ample size)
    (commit : (Engine.commit w.operation).Gives w.store.engine () e) : Grounded { w.store with engine := e } := by
  obtain ⟨names, next, hs⟩ := h.now
  obtain ⟨hlisted, hnames⟩ := hs.titled.commit commit
  have hsize : e.mounted.volume.pageSize = size := (Engine.commit_pageSize commit).trans hs.titled.pageSize
  have hseen : (fun f : FileId => e.mounted.volume.catalog.names[f]?) = names := funext hnames
  exact ⟨hlisted, hsize.symm ▸ hample, hseen.symm ▸ hs.grounded⟩

/-- A store after any operations, each of them committed or given up, and any requests between them. -/
inductive Managed (s₀ : Store) : Store → Prop where
  | start : Managed s₀ s₀
  | asked {s : Store} (before : Managed s₀ s) (request : Request) : Managed s₀ (request.after s)
  | committed {α : Type} {s s' : Store} {op : Operation} {e : Engine} {a : α} (before : Managed s₀ s)
      (started : Engine.start.Gives s.engine op e) (t : Task Workspace CollectionError α)
      (managed : Workspace.Managed (.begun s e op) (t.start (.begun s e op)).2) (run : (atomically t).Gives s a s') :
      Managed s₀ s'
  | givenUp {α : Type} {s : Store} {op : Operation} {e : Engine} {cause : Failure CollectionError}
      (before : Managed s₀ s) (started : Engine.start.Gives s.engine op e) (t : Task Workspace CollectionError α)
      (managed : Workspace.Managed (.begun s e op) (t.start (.begun s e op)).2)
      (fails : (t.start (.begun s e op)).1 = .error cause) : Managed s₀ ((atomically t).start s).2

theorem Managed.grounded (managed : Managed s₀ s) (h : s₀.Grounded) : s.Grounded := by
  induction managed with
  | start => exact h
  | @asked s before request ih =>
    have hretains (c : ClusterId) : (Operation.fresh 0).Retains (fun f => s.volume.catalog.names[f]?) c := by
      simp [Operation.Retains, Operation.fresh]
    have hsafe : request.Safe ⟨s, .fresh 0, []⟩ := by
      cases request with
      | load c => exact fun _ => hretains c
      | loadExisting => exact fun c _ => hretains c
      | close => exact hretains
    exact Grounded.rolledBack ((ih.begun rfl 0).request request hsafe) ih.ample
  | committed before started t managed run ih =>
    have hdone := managed.grounded ih.ample (ih.started started)
    obtain ⟨-, hfinish⟩ := Collection.finish_of_gives started run
    rw [Workspace.finish] at hfinish
    split at hfinish
    · next engine hcommit =>
      obtain ⟨-, rfl⟩ := Prod.mk.inj hfinish
      exact .committed hdone ih.ample hcommit
    · cases hfinish
  | givenUp before started t managed fails ih =>
    rw [Collection.start_atomically started, fails]
    exact .rolledBack (managed.grounded ih.ample (ih.started started)) ih.ample

/-- Whenever no operation is in flight every registered cluster has a storage with its files. -/
theorem Managed.clusters_have_files (managed : Managed s₀ s) (h : s₀.Grounded) (hc : c ∈ s.registry.clusterIds) :
    ∃ st, s.registry.storage? c = some st ∧ st.cluster = c ∧
      s.volume.idOf? (Cluster.treeName c) = some st.treeFile ∧
        s.volume.idOf? (Cluster.sizesName c) = some st.sizesFile := by
  have hgrounded := managed.grounded h
  obtain ⟨f, hf⟩ := Option.isSome_iff_exists.mp
    (Std.TreeMap.mem_iff_isSome_getElem?.mp (Std.TreeMap.mem_keys.mp hc))
  obtain ⟨htree, st, hst, howner, rfl, hsizes⟩ := hgrounded.registry c f hf
  obtain ⟨id, hid, hst⟩ := Option.bind_eq_some_iff.mp hst
  refine ⟨st, ?_, howner, hgrounded.listed.idOf?_eq_some.mpr htree, hgrounded.listed.idOf?_eq_some.mpr hsizes⟩
  rw [Registry.storage?, Registry.registeredId?, hf, Option.bind_some, hid, Option.bind_some]
  exact hst

/-- A cluster that is dropped and loaded in one operation stays registered, and its files are gone. -/
theorem Grounded.dropped_then_loaded {a : Option StorageId} {f : FileId} (h : s.Grounded)
    (hallowed : s.registry.prohibited = false) (hc : s.registry.clusters[c]? = some f)
    (started : Engine.start.Gives s.engine op e)
    (run : (atomically do
      Workspace.dropCluster c
      (loadCluster c : Task Store CollectionError (Option StorageId))).Gives s a s') :
    s'.registry.clusters[c]? = some f ∧ s'.volume.catalog.names[f]? = none := by
  obtain ⟨names, next, hs⟩ := (h.started started).now
  obtain ⟨htree, st, hst, rfl, rfl, hsizes⟩ := h.registry c f hc
  obtain ⟨htree', st', hst', -, -, hsizes'⟩ := hs.grounded _ _ hc
  obtain rfl : st = st' := Option.some.inj (hst.symm.trans hst')
  obtain ⟨id, hid, hst⟩ := Option.bind_eq_some_iff.mp hst
  have hreg : s.registry.registeredId? st.cluster = some id := by
    rw [Registry.registeredId?, hc, Option.bind_some, hid]
  obtain ⟨t, ht, hdrop⟩ := Workspace.dropCluster_gives hs.titled hallowed hreg hst htree' hsizes'
  -- the committed files are those that the operation began with
  have hnames : t.mounted.volume.catalog.names = s.volume.catalog.names := by
    have hkept := Workspace.dropCluster_keepsNames (· = s.volume.catalog.names) st.cluster (.begun s e op)
      (by obtain ⟨-, -, rfl⟩ := Engine.start_eq started; rfl)
    rwa [hdrop.eq] at hkept
  rw [← hnames] at htree hsizes
  have hload : (loadCluster st.cluster).Gives ((Workspace.begun s e op).withdrawn t st id).store _ _ :=
    loadCluster_gives hallowed (by simp [Workspace.withdrawn, Registry.registeredId?, Registry.withdraw])
      (ht.listed.idOf?_eq_some.mpr htree) (ht.listed.idOf?_eq_some.mpr hsizes)
  obtain ⟨-, hfinish⟩ := Collection.finish_of_gives started run
  rw [(hdrop.bind hload.onPart).eq, Workspace.finish] at hfinish
  split at hfinish
  · next engine hcommit =>
    obtain ⟨-, rfl⟩ := Prod.mk.inj hfinish
    refine ⟨Std.TreeMap.getElem?_insert_self, ((ht.commit hcommit).2 _).trans ?_⟩
    rw [Function.update_apply, Function.update_self, ite_self]
  · cases hfinish

/-- A store with the files of one cluster comes to have none, and the cluster is registered still. -/
theorem bare_dropped_then_loaded : (bare 1).Grounded ∧
    let s := ((atomically do
      Workspace.dropCluster 1
      (loadCluster 1 : Task Store CollectionError (Option StorageId))).start (bare 1)).2
    s.registry.clusterIds = [1] ∧ s.volume.catalog.names.size = 0 :=
  ⟨(matched_bare 1).grounded, by decide +kernel⟩

end Store

end RefStore
