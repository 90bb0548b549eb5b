import RefStore.Proofs.Deletions

/-!
# Stores that are opened again

A store that is opened again has the estate that it had, and answers as it did before, and so does one that
gave an operation up. Main statements: `Store.Built.givenUp_alike`, `Store.Built.reopened_alike`.
-/

namespace RefStore

namespace Store

variable {α : Type} {dir : Path} {place : Location} {size n k : Nat} {s : Stock} {st st' : Store} {op : Operation}
  {e : Engine} {w : Workspace} {E E' : Estate}

/-! ## What a commit leaves -/

/-- After a commit, the collections beside one that is alive answer what the operation left of them. -/
theorem committed_answers {a b : α} {roll₀ roll : Collection.Roll} {shelves : Shelves} {c d : Collection}
    {x : ClusterStorage} {es : List Entry} (h : w.InHand size s roll₀ shelves roll n)
    (hf : w.finish (.ok a) = (.ok b, st)) (hu : st.engine.journal.broken = false) (hc : c ∈ roll.handles)
    (hl : c.pointer ∈ roll.live) (hx : w.store.registry.storages[c.storage]? = some x) (hes : w.entries x = .ok es)
    (hd : d.storage = c.storage) (hp : d.pointer ∈ roll.pointers) (hfile : d.pointer.file = c.pointer.file) :
    (loadCollection d.pointer).Gives st d st ∧ ((view d.size).start st).1 = w.slotCount x d.pointer.slot ∧
      ((view d.entries).start st).1 = .ok ((Tree.ownEntries d.id es).map fun e => (e.key.record, e.value)) := by
  obtain ⟨s', htidy, -, hsame⟩ := committed_tidy h hf
  obtain ⟨sh, hid, hsh⟩ := h.now.exists_shelf hc hl
  obtain rfl : sh.storage = x := Option.some.inj ((h.now.shelved.stored hid).symm.trans hx)
  obtain rfl := Except.ok.inj ((Workspace.entries_shelf h.now hid).symm.trans hes)
  rw [← hd] at hid hx
  rw [← hsame] at hx
  have hlist : d.entries.Gives (⟨st, .none, []⟩ : Workspace) _ _ :=
    Workspace.entries_gives (w := ⟨st, .none, []⟩) htidy hid
  have hslot := Workspace.slotCount_shelf (w := ⟨st, .none, []⟩) htidy hid d.pointer.slot
  refine ⟨loadCollection_gives htidy hp hid (hsh.trans hfile.symm), ?_, ?_⟩
  · rw [view_start hu, Workspace.size_eq (w := ⟨st, .none, []⟩) hx, hslot, Workspace.slotCount_shelf h.now hid]
  · rw [view_start hu, hlist.eq]

section

variable {x : ClusterStorage} {r₁ r₂ : RecordRef} {v₁ v₂ : Int32} {c : ClusterId}

/-- Make a cluster and drop it again, and delete a collection. -/
def strike (c : ClusterId) (p : CollectionPointer) : Task Workspace CollectionError Unit := do
  let _ ← Workspace.createCluster c
  Workspace.dropCluster c
  Workspace.deleteCollection p

/-- The first of two collections can be deleted so. -/
theorem HasPair.strikes_first (h : HasPair dir size x r₁ r₂ v₁ v₂ st) (hdir : dir.Roomy)
    (started : Engine.start.Gives st.engine op e) (hc : x.cluster ≠ c) : ∃ s shelves w,
      (strike c x.first.pointer).Gives (.begun st e op) () w ∧
      (Workspace.begun st e op).Settles (.pair x) 3 w (.pair x) ∧
      w.store.engine.mounted.volume.catalog.nextId.toNat = 4 ∧
      w.InHand size s (.pair x) shelves (((Collection.Roll.pair x).strikeCluster c).strike x.first.pointer) 4 ∧
      w.store.registry.storages[0]? = some x ∧ w.entries x = .ok [⟨x.second.key r₂, v₂⟩] ∧
      w.slotCount x 0 = refuse (.sizes (.slot .deleted 0)) ∧ w.slotCount x 1 = .ok 1 := by
  obtain ⟨s, hw⟩ := h.begun started
  have hnext : (Workspace.begun st e op).store.engine.mounted.volume.catalog.nextId.toNat = 2 := by
    obtain ⟨-, -, rfl⟩ := Engine.start_eq started
    exact h.next
  have hno {id : StorageId} {sh : Shelf} (hid : Shelves.only (.pair x r₁ r₂ v₁ v₂) id = some sh) :
      sh.storage.cluster ≠ c := by
    rcases update_cases hid with ⟨-, hsh⟩ | ⟨-, hsh⟩
    · exact Option.some.inj hsh ▸ hc
    · cases hsh
  -- the other cluster comes and goes
  obtain ⟨id, w₁, w₂, hg₁, hg₂, hnext₁, hm₂, hw₂⟩ := hw.createCluster_dropped c (by rw [hnext]; decide) hno
  rw [hnext] at hnext₁
  obtain ⟨g, hdrop⟩ : ∃ g, (Collection.Call.dropCluster c).run.Gives w₁ g w₂ :=
    ⟨_, (Task.Gives.state w₁).bind (hg₂.bind (.pure _ w₂))⟩
  have work₁ := (@Workspace.Settles.nothing (.begun st e op) (.pair x)).gives
    (Collection.Call.addCluster_gives hg₁) (by rw [hnext]; decide)
  have work₂ := work₁.gives hdrop (by rw [hnext₁]; decide)
  -- the first collection goes
  have alive := Workspace.alive_first hw₂.now (List.mem_cons_of_mem _ List.mem_cons_self)
  obtain ⟨_, _, hr, -⟩ := h.built.registers hdir (by decide)
  obtain ⟨w₃, hg₃, hloses⟩ := (work₂.performs.backed (hr.houses.backed started) (by decide)).deletes alive
  obtain ⟨hstore, shelves, hw₃⟩ := (hw₂.delete_ends (List.mem_cons_of_mem _ List.mem_cons_self)).of_gives hg₃
  have work₃ := work₂.gives (Collection.Call.delete_gives hg₃) (by rw [hm₂, hnext₁]; decide)
  have hE : (((Estate.pair x).found c).drop c).after w₂ (.delete x.first.pointer) = .pair x := by
    simp [Estate.after, Estate.drop, Estate.found, Estate.pair, ClusterStorage.first, ClusterStorage.second, hc]
  rw [Estate.after_addCluster hg₁, Estate.after_dropCluster hg₂, hE] at work₃
  -- what is lost with it
  obtain ⟨hx, hes, hcounts⟩ := Workspace.pair_contents hw₂.now
  obtain ⟨x', es, _, _, hx', hes', hleft, -⟩ := hloses.entries
  obtain rfl : x = x' := Option.some.inj (hx.symm.trans hx')
  obtain rfl := Except.ok.inj (hes.symm.trans hes')
  have hsecond := hloses.slots x (List.mem_of_getElem? hx) 1 fun _ => show (1 : SlotId) ≠ 0 by decide
  rw [← hloses.registry] at hx
  exact ⟨s, shelves, w₃, hg₁.bind (hg₂.bind hg₃), work₃, by rw [hstore, hm₂, hnext₁], hw₃, hx, hleft,
    (Workspace.size_eq (c := x.first) hx).symm.trans hloses.size, hsecond.trans (hcounts 1)⟩

/-- After the commit the second one is still there. -/
theorem HasPair.exists_struck (h : HasPair dir size x r₁ r₂ v₁ v₂ st) (hdir : dir.Roomy) (hc : x.cluster ≠ c) : ∃ st',
    (atomically (strike c x.first.pointer)).Gives st () st' ∧ Built dir size st' (.pair x) 7 ∧
      (loadCollection x.first.pointer).Gives st' x.first st' ∧
      (loadCollection x.second.pointer).Gives st' x.second st' ∧
      ((view x.first.size).start st').1 = refuse (.sizes (.slot .deleted 0)) ∧
      ((view x.second.size).start st').1 = .ok 1 ∧ ((view x.second.entries).start st').1 = .ok [(r₂, v₂)] := by
  obtain ⟨op, e, started⟩ := Engine.exists_start h.usable
  obtain ⟨s, shelves, w, hg, work, hnext, hw, hx, hes, hfirst, hsecond⟩ := h.strikes_first hdir started hc
  obtain ⟨st', run, hfinish, hbuilt, -⟩ := h.built.commits hdir started hg work (by decide) (by rw [hnext]; decide)
  obtain ⟨_, _, hr, -⟩ := hbuilt.registers hdir (by decide)
  have hlive : x.second.pointer ∈ (((Collection.Roll.pair x).strikeCluster c).strike x.first.pointer).live := by
    simp [Collection.Roll.strike, Collection.Roll.strikeCluster, Collection.Roll.pair, Collection.Roll.lend,
      Collection.Roll.enter, ClusterStorage.first, ClusterStorage.second, hc]
  obtain ⟨hload, hsize, -⟩ := committed_answers (d := x.first) hw hfinish hr.usable List.mem_cons_self hlive hx hes rfl
    (List.mem_cons_of_mem _ List.mem_cons_self) rfl
  obtain ⟨hload', hsize', hlist'⟩ := committed_answers (d := x.second) hw hfinish hr.usable List.mem_cons_self hlive hx
    hes rfl List.mem_cons_self rfl
  refine ⟨st', run, hbuilt, hload, hload', hsize.trans hfirst, hsize'.trans hsecond, ?_⟩
  rw [hlist', Tree.ownEntries_eq_filter]
  rfl

end

/-! ## Opening again -/

/-- Another store has the clusters and collections of an estate too, and whatever they are asked they answer
the same, refusals included. -/
structure AlikeOn (E : Estate) (st st' : Store) : Prop where
  collections : ∀ p ∈ E.pointers, ∃ a a', (loadCollection p).Gives st a st ∧ (loadCollection p).Gives st' a' st' ∧
    ∀ {α : Type} (q : Collection.Question α), ((view (q.ask a')).start st').1 = ((view (q.ask a)).start st).1
  clusters : ∀ c ∈ E.clusters, ∃ b b', st.registry.storage? c = some b ∧ st'.registry.storage? c = some b' ∧
    ∀ {α : Type} (q : ClusterStorage.Question α), ((view (q.ask b')).start st').1 = ((view (q.ask b)).start st).1

/-- Stores with the same files are alike. -/
theorem Registers.alikeOn (h : Registers dir place size s n st) (h' : Registers dir place size s k st')
    (hE : E.Stands st.registry) : AlikeOn E st st' where
  collections p hp := h.answers h' (h.matched.clusters.mp (hE.pointers hp))
  clusters c hc := by
    have hmem := Std.TreeMap.mem_iff_isSome_getElem?.mp (hE.clusters.mp hc)
    obtain ⟨f, hf⟩ := Option.isSome_iff_exists.mp hmem
    exact h.answers_cluster h' ⟨f, h.matched.clusters.mp hf⟩

namespace Built

/-- An operation that is given up leaves what clusters and collections answer. -/
theorem givenUp_alike (h : Built dir size st E n) (hdir : dir.Roomy) (started : Engine.start.Gives st.engine op e)
    (work : (Workspace.begun st e op).Settles E k w E') (hn : n + k < 2 ^ 61) : AlikeOn E st w.rollback := by
  obtain ⟨place, s, hr, hE⟩ := h.registers hdir (by omega)
  have ha := work.called.accounted hr.houses.ample (hr.accounted started)
  have hb := work.performs.backed (hr.houses.backed started) hn
  exact hr.alikeOn (hr.rolledBack started hb ha (Nat.le_add_right n k)) hE

/-- Closed or just dropped, such a store can be opened again. It has the clusters of its estate, and these and
their collections answer as before. -/
theorem reopened_alike (h : Built dir size st E n) (hdir : dir.Roomy) (hn : n < 2 ^ 61) {settings : Settings}
    (valid : settings.validate = .ok ()) (pages : settings.pageSize = size) {disk : Disk}
    (ended : disk = st.disk ∨ disk = (close.start st).2.disk) :
    (∃ st₁, close.Gives st () st₁) ∧ ∃ st' report disk',
      Store.open settings dir disk = (.ok (st', report), disk') ∧
      (∀ c, c ∈ st'.registry.clusterIds ↔ c ∈ E.clusters) ∧ AlikeOn E st st' := by
  obtain ⟨place, s, hr, hE⟩ := h.registers hdir hn
  obtain ⟨st', report, hopen, hr'⟩ := hr.reopens hdir valid pages
  obtain ⟨st₁, hclose, -⟩ := hr.close_gives
  have hdisk : disk = st.disk := ended.elim id fun he => he.trans hr.houses.disk_close
  rw [← hdisk] at hopen
  obtain ⟨-, hsame⟩ := hr.reopened hdir pages ended hopen
  refine ⟨⟨st₁, hclose⟩, st', report, _, hopen, fun c => ?_, hr.alikeOn hr' hE⟩
  rw [(hE.congr hsame).clusters, Registry.clusterIds, Std.TreeMap.mem_keys]

/-- One of two collections was deleted, and another cluster was dropped. The store that is opened after the close
has the first cluster only, and its collections are as they were left. -/
theorem reopened_after_strike : ∃ (st st' : Store) (report : RecoveryReport) (disk : Disk) (x : ClusterStorage)
    (a b : Collection), Built ⟨["d"]⟩ 1024 st (.pair x) 7 ∧ (∃ st₁, close.Gives st () st₁) ∧
      Store.open ⟨"d", 1024, 1, false⟩ ⟨["d"]⟩ (close.start st).2.disk = (.ok (st', report), disk) ∧
      (∀ c, c ∈ st'.registry.clusterIds ↔ c = 1) ∧
      (loadCollection x.first.pointer).Gives st' a st' ∧
      ((view a.size).start st').1 = refuse (.sizes (.slot .deleted 0)) ∧
      (loadCollection x.second.pointer).Gives st' b st' ∧ ((view b.size).start st').1 = .ok 1 ∧
      ((view b.entries).start st').1 = .ok [(⟨1, 1⟩, 20)] := by
  have hdir := Path.roomy_d
  obtain ⟨x, st₀, hcluster, h⟩ := exists_hasPair 1 ⟨1, 1⟩ ⟨1, 1⟩ 10 20
  have hother : x.cluster ≠ -1 := by
    rw [hcluster]
    decide
  obtain ⟨st, -, built, hfirst, hsecond, hsize, hsize', hlist⟩ := h.exists_struck hdir hother
  obtain ⟨hclose, st', report, disk, hreopen, hids, halike⟩ := built.reopened_alike hdir (by decide)
    (show (⟨"d", 1024, 1, false⟩ : Settings).validate = .ok () from rfl) rfl (.inr rfl)
  obtain ⟨a, a', hload, hload', hsame⟩ := halike.collections _ (List.mem_cons_of_mem _ List.mem_cons_self)
  obtain ⟨b, b', hloadb, hloadb', hsameb⟩ := halike.collections _ List.mem_cons_self
  obtain rfl := (hload.unique hfirst).1
  obtain rfl := (hloadb.unique hsecond).1
  refine ⟨st, st', report, disk, x, a', b', built, hclose, hreopen, fun c => (hids c).trans ?_, hload',
    (hsame .size).trans hsize, hloadb', (hsameb .size).trans hsize', (hsameb .entries).trans hlist⟩
  simp [Estate.pair, hcluster]

end Built

end Store

end RefStore
