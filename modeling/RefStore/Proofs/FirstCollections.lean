import RefStore.Proofs.CollectionHistories
import RefStore.Proofs.Estates

/-!
# The first collections of a store

The first operation of a new store may make two collections in a cluster and put an entry into each of
them. What it leaves is told exactly, and that it can be committed. Main statements:
`Workspace.exists_makesPair`, `Store.exists_pair`.
-/

namespace RefStore

open Collection (Roll Action Call Progress)

/-! ## Two collections on a shelf -/

namespace ClusterStorage

/-- The first two collections in a storage that is the first one of its store. -/
def first (x : ClusterStorage) : Collection := ⟨0, ⟨x.treeFile, x.cluster, 1, 0⟩⟩

def second (x : ClusterStorage) : Collection := ⟨0, ⟨x.treeFile, x.cluster, 2, 1⟩⟩

end ClusterStorage

/-- A shelf with two collections that have one entry each. -/
def Shelf.pair (x : ClusterStorage) (r₁ r₂ : RecordRef) (v₁ v₂ : Int32) : Shelf :=
  ⟨x, [⟨x.first.key r₁, v₁⟩, ⟨x.second.key r₂, v₂⟩], [1, 1]⟩

/-- The first shelf and no others. -/
def Shelves.only (sh : Shelf) : Shelves := Function.update (fun _ => none) 0 (some sh)

def Collection.Roll.pair (x : ClusterStorage) : Roll :=
  (((Roll.empty.enter x.first.pointer).lend x.first).enter x.second.pointer).lend x.second

def Estate.pair (x : ClusterStorage) : Estate := ⟨[x.cluster, x.cluster], [x.second.pointer, x.first.pointer]⟩

variable {dir : Path} {size n : Nat} {s : Stock} {st₀ st : Store} {op : Operation} {e : Engine}
  {w₀ w₁ w₂ w₃ w : Workspace} {x : ClusterStorage} {r₁ r₂ : RecordRef} {v₁ v₂ : Int32} {roll₀ : Roll} {sh : Shelf}

theorem Shelves.only_zero (sh : Shelf) : Shelves.only sh 0 = some sh := Function.update_self ..

theorem Shelves.update_only (sh sh' : Shelf) : Function.update (Shelves.only sh) 0 (some sh') = Shelves.only sh' :=
  Function.update_idem ..

/-- The entries are put one after another. -/
theorem Shelf.withEntry_first (x : ClusterStorage) (r₁ : RecordRef) (v₁ : Int32) :
    (⟨x, [], [0, 0]⟩ : Shelf).withEntry x.first r₁ v₁ 0 = ⟨x, [⟨x.first.key r₁, v₁⟩], [1, 0]⟩ := rfl

theorem ClusterStorage.first_lt_second (x : ClusterStorage) (r₁ r₂ : RecordRef) : x.first.key r₁ < x.second.key r₂ := by
  refine Key.lt_iff.mpr (.inl ?_)
  show (1 : CollectionId) < 2
  decide

theorem Shelf.withEntry_second (x : ClusterStorage) (r₁ r₂ : RecordRef) (v₁ v₂ : Int32) :
    (⟨x, [⟨x.first.key r₁, v₁⟩], [1, 0]⟩ : Shelf).withEntry x.second r₂ v₂ 0 = .pair x r₁ r₂ v₁ v₂ := by
  have hlt := x.first_lt_second r₁ r₂
  have hbelow : ([(⟨x.first.key r₁, v₁⟩ : Entry)].filter fun e => e.key < x.second.key r₂) =
      [⟨x.first.key r₁, v₁⟩] := by simp [hlt]
  have habove : ([(⟨x.first.key r₁, v₁⟩ : Entry)].filter fun e => x.second.key r₂ < e.key) = [] := by
    simp [lt_asymm hlt]
  rw [withEntry]
  dsimp only
  rw [hbelow, habove]
  rfl

theorem Shelf.pair_ne_first {r : RecordRef} (hr : r ≠ r₁) :
    ∀ e ∈ (pair x r₁ r₂ v₁ v₂).entries, e.key ≠ x.first.key r := by
  intro e he hkey
  rcases List.mem_cons.mp he with rfl | he
  · exact hr (congrArg Key.record hkey).symm
  · rw [List.mem_singleton.mp he] at hkey
    exact absurd (congrArg Key.collection hkey) (show (2 : CollectionId) ≠ 1 by decide)

/-- The ids of its entries. -/
theorem Shelf.exists_mem_pair {i : CollectionId} :
    (∃ e ∈ (pair x r₁ r₂ v₁ v₂).entries, e.key.collection = i) ↔ 1 = i ∨ 2 = i := by
  simp only [pair, List.mem_cons, List.not_mem_nil, or_false, exists_eq_or_imp, exists_eq_left]
  exact Iff.rfl

theorem Shelf.ownEntries_first (x : ClusterStorage) (r₁ r₂ : RecordRef) (v₁ v₂ : Int32) :
    Tree.ownEntries x.first.id (pair x r₁ r₂ v₁ v₂).entries = [⟨x.first.key r₁, v₁⟩] := by
  rw [Tree.ownEntries_eq_filter]
  rfl

theorem Shelf.ownEntries_second (x : ClusterStorage) (r₁ r₂ : RecordRef) (v₁ v₂ : Int32) :
    Tree.ownEntries x.second.id (pair x r₁ r₂ v₁ v₂).entries = [⟨x.second.key r₂, v₂⟩] := by
  rw [Tree.ownEntries_eq_filter]
  rfl

namespace Workspace

/-! ## The operation -/

/-- Make two collections in a cluster, and put an entry into each of them. -/
def makePair (cluster : ClusterId) (r₁ r₂ : RecordRef) (v₁ v₂ : Int32) : Task Workspace CollectionError Unit := do
  let a ← createCollection cluster
  let b ← createCollection cluster
  let _ ← a.put r₁ v₁
  let _ ← b.put r₂ v₂
  return ()

/-- What the steps of this operation do, while ids of files and of collections are left. -/
structure MakesPair (x : ClusterStorage) (r₁ r₂ : RecordRef) (v₁ v₂ : Int32) (w₀ w₁ w₂ w₃ w : Workspace) : Prop where
  first : (createCollection x.cluster).Gives w₀ x.first w₁
  second : (createCollection x.cluster).Gives w₁ x.second w₂
  firstPut : (x.first.put r₁ v₁).Gives w₂ none w₃
  secondPut : (x.second.put r₂ v₂).Gives w₃ none w
  next : w₀.store.engine.mounted.volume.catalog.nextId.toNat = 0
  counter : w₀.counter = 0
  made : w₁.store.engine.mounted.volume.catalog.nextId.toNat = 2
  counted : w₁.counter = 1
  mounted : w₂.store.engine.mounted = w₁.store.engine.mounted
  store₃ : w₃.store = w₂.store
  store : w.store = w₃.store

namespace MakesPair

variable (h : MakesPair x r₁ r₂ v₁ v₂ w₀ w₁ w₂ w₃ w)

include h

theorem gives : (makePair x.cluster r₁ r₂ v₁ v₂).Gives w₀ () w :=
  h.first.bind (h.second.bind (h.firstPut.bind (h.secondPut.bind (.pure () w))))

theorem progress : Progress .empty 0 w₀ (.pair x) 4 w := by
  have p₁ := Progress.action (@Progress.nothing .empty 0 w₀) (.create x.cluster) trivial
    ⟨by rw [h.counter]; decide, fun _ => by rw [h.next]; decide⟩ (Action.create_gives h.first)
  have p₂ := p₁.action (.create x.cluster) trivial
    ⟨by rw [h.counted]; decide, fun _ => by rw [h.made]; decide⟩ (Action.create_gives h.second)
  have p₃ := p₂.action (.put x.first r₁ v₁) (List.mem_cons_of_mem _ List.mem_cons_self) trivial
    (Action.put_gives h.firstPut)
  exact p₃.action (.put x.second r₂ v₂) List.mem_cons_self trivial (Action.put_gives h.secondPut)

theorem settles : w₀.Settles .empty 4 w (.pair x) := by
  have hnext₂ : w₂.store.engine.mounted.volume.catalog.nextId.toNat ≤ 2 := by rw [h.mounted, h.made]
  have hlt {w : Workspace} (hw : w.store.engine.mounted.volume.catalog.nextId.toNat ≤ 2) :
      w.store.engine.mounted.volume.catalog.nextId.toNat + 2 < UInt32.size :=
    Nat.lt_of_le_of_lt (Nat.add_le_add_right hw 2) (by decide)
  have s₁ := (@Settles.nothing w₀ .empty).gives (Call.create_gives h.first) (hlt (by rw [h.next]; decide))
  rw [Estate.after_create h.first] at s₁
  have s₂ := s₁.gives (Call.create_gives h.second) (hlt h.made.le)
  rw [Estate.after_create h.second] at s₂
  have s₃ := s₂.gives (Call.put_gives h.firstPut) (hlt hnext₂)
  exact s₃.gives (Call.put_gives h.secondPut) (hlt (by rw [h.store₃]; exact hnext₂))

end MakesPair

/-- Where nothing was made before, the operation succeeds. -/
theorem exists_makesPair (h : w₀.InHand size s roll₀ (fun _ => none) .empty 0) (hnone : w₀.store.registry.storages = [])
    (hcounter : w₀.counter = 0) (hnext : w₀.store.engine.mounted.volume.catalog.nextId.toNat = 0) (cluster : ClusterId)
    (r₁ r₂ : RecordRef) (v₁ v₂ : Int32) : ∃ x w₁ w₂ w₃ w, x.cluster = cluster ∧ MakesPair x r₁ r₂ v₁ v₂ w₀ w₁ w₂ w₃ w ∧
      w.counter = 2 ∧ w.InHand size s roll₀ (Shelves.only (.pair x r₁ r₂ v₁ v₂)) (.pair x) 2 := by
  obtain ⟨x, u, hg, rfl, hcount, hnext₁, hu⟩ := h.clusterStorage_new cluster (by rw [hnext]; decide) nofun
  rw [hnone] at hg hu
  have hu₀ : u.counter = 0 := hcount.trans hcounter
  -- the first collection is made with the cluster, the second one in it
  obtain ⟨w₁, hg₁, hc₁, hm₁, h₁⟩ := h.createIn_gives hu hg (Shelves.only_zero ⟨x, [], []⟩) (by rw [hu₀]; decide)
    (show 0 < UInt32.size by decide)
  rw [hu₀] at hg₁ hc₁ h₁
  replace h₁ : w₁.InHand size s roll₀ (Shelves.only ⟨x, [], [0]⟩) ((Roll.empty.enter x.first.pointer).lend x.first) 0 :=
    Shelves.update_only _ _ ▸ h₁
  obtain ⟨w₂, hg₂, hc₂, hm₂, h₂⟩ := h₁.createIn_gives h₁ (h₁.clusterStorage_known (Shelves.only_zero _))
    (Shelves.only_zero ⟨x, [], [0]⟩) (by rw [hc₁]; decide) (show 1 < UInt32.size by decide)
  rw [hc₁] at hg₂ hc₂ h₂
  replace h₂ : w₂.InHand size s roll₀ (Shelves.only ⟨x, [], [0, 0]⟩) (.pair x) 0 := Shelves.update_only _ _ ▸ h₂
  -- each gets its entry
  obtain ⟨w₃, hg₃, hs₃, h₃⟩ := h₂.put_adds (c := x.first) (r := r₁) (k := 0) (List.mem_cons_of_mem _ List.mem_cons_self)
    (List.mem_cons_of_mem _ List.mem_cons_self) (by decide) (Shelves.only_zero _) nofun rfl (by decide) v₁
  rw [show x.first.storage = 0 from rfl, Shelves.update_only, Shelf.withEntry_first] at h₃
  have hnew : ∀ e ∈ [(⟨x.first.key r₁, v₁⟩ : Entry)], e.key ≠ x.second.key r₂ := fun e he =>
    List.mem_singleton.mp he ▸ (x.first_lt_second r₁ r₂).ne
  obtain ⟨w₄, hg₄, hs₄, h₄⟩ := h₃.put_adds (c := x.second) (r := r₂) (k := 0) List.mem_cons_self List.mem_cons_self
    (by decide) (Shelves.only_zero _) hnew rfl (by decide) v₂
  rw [show x.second.storage = 0 from rfl, Shelves.update_only, Shelf.withEntry_second] at h₄
  refine ⟨x, w₁, w₂, w₃, w₄, rfl, ⟨hg₁, hg₂, hg₃, hg₄, hnext, hcounter, ?_, hc₁, hm₂, hs₃, hs₄⟩, ?_, h₄⟩
  · rw [hm₁, hnext₁, hnext]
  · rw [counter, hs₄, hs₃]
    exact hc₂

/-- What both collections answer. -/
theorem pair_answers (h : Tidy size s (Part.get w) w.store.registry (Shelves.only (.pair x r₁ r₂ v₁ v₂)) roll₀ n) :
    x.first.size.Gives w 1 w ∧ x.first.entries.Gives w [(r₁, v₁)] w ∧
      x.second.size.Gives w 1 w ∧ x.second.entries.Gives w [(r₂, v₂)] w := by
  have hfirst := entries_gives (c := x.first) h (Shelves.only_zero _)
  have hsecond := entries_gives (c := x.second) h (Shelves.only_zero _)
  rw [Shelf.ownEntries_first] at hfirst
  rw [Shelf.ownEntries_second] at hsecond
  exact ⟨size_gives h (Shelves.only_zero _) rfl (by decide), hfirst,
    size_gives h (Shelves.only_zero _) rfl (by decide), hsecond⟩

end Workspace

/-! ## The store that it leaves -/

namespace Store

/-- What a store is like with two collections in a cluster, each with an entry, and nothing else. -/
structure HasPair (dir : Path) (size : Nat) (x : ClusterStorage) (r₁ r₂ : RecordRef) (v₁ v₂ : Int32) (st : Store) :
    Prop where
  tidy : ∃ s, Tidy size s ⟨st.engine.mounted, .none⟩ st.registry (Shelves.only (.pair x r₁ r₂ v₁ v₂)) (.pair x) 4 ∧
    st.engine.journal.log.node = s.logNode
  usable : st.engine.journal.broken = false
  next : st.engine.mounted.volume.catalog.nextId.toNat = 2
  counter : st.registry.counter = 2
  built : Built dir size st (.pair x) 4
  history : Collection.History dir st (.pair x) 4

/-- In a new store the operation can be committed. -/
theorem exists_pair {settings : Settings} {disk d disk' : Disk} {report : RecoveryReport} (hdir : dir.Roomy)
    (empty : Disk.OffersEmpty dir disk d) (sound : disk.Sound) (live : disk.outage = none)
    (opening : Store.open settings dir disk = (.ok (st₀, report), disk')) (started : Engine.start.Gives st₀.engine op e)
    (cluster : ClusterId) (r₁ r₂ : RecordRef) (v₁ v₂ : Int32) : ∃ x w₁ w₂ w₃ w st, x.cluster = cluster ∧
      Workspace.MakesPair x r₁ r₂ v₁ v₂ (.begun st₀ e op) w₁ w₂ w₃ w ∧
      (atomically (Workspace.makePair cluster r₁ r₂ v₁ v₂)).Gives st₀ () st ∧
      HasPair dir settings.pageSize x r₁ r₂ v₁ v₂ st := by
  obtain ⟨-, hregistry, hvolume, -, -⟩ := open_gives empty opening
  obtain ⟨s, htidy, hlog⟩ := Rests.opened empty opening
  have hnext : (Workspace.begun st₀ e op).store.engine.mounted.volume.catalog.nextId.toNat = 0 := by
    obtain ⟨-, -, rfl⟩ := Engine.start_eq started
    exact congrArg (fun v : Volume => v.catalog.nextId.toNat) hvolume
  obtain ⟨x, w₁, w₂, w₃, w, rfl, makes, hcounter, hw⟩ := Workspace.exists_makesPair (begun_inHand htidy hlog started)
    (congrArg Registry.storages hregistry) (congrArg Registry.counter hregistry) hnext cluster r₁ r₂ v₁ v₂
  have hfiles : w.store.engine.mounted.volume.catalog.nextId.toNat = 2 := by
    rw [makes.store, makes.store₃, makes.mounted, makes.made]
  have built : Built dir settings.pageSize st₀ .empty 0 := .opened empty sound live rfl opening
  obtain ⟨st, run, hfinish, hbuilt, hkept⟩ :=
    built.commits hdir started makes.gives makes.settles (by decide) (hfiles.le.trans (by decide))
  obtain ⟨s', htidy', hlog', hsame⟩ := committed_tidy (hw.mono (by decide : 2 ≤ 4)) hfinish
  obtain ⟨_, _, hr, -⟩ := hbuilt.registers hdir (by decide)
  refine ⟨x, w₁, w₂, w₃, w, st, rfl, makes, run, ⟨s', htidy', hlog'⟩, hr.usable, by rw [hkept, hfiles], ?_, hbuilt, ?_⟩
  · rw [hsame]
    exact hcounter
  · refine .committed (.opened empty opening) started _ (?_ : Collection.Ends _ _ _ _ _ _ _) run
    rw [makes.gives.eq]
    exact .byItself makes.progress _

/-- A store can be opened on an empty disk, and an operation be started on it. -/
theorem exists_opened : ∃ st settings d report disk' op e, settings.pageSize = 1024 ∧
    Disk.OffersEmpty ⟨["d"]⟩ .empty d ∧ Store.open settings ⟨["d"]⟩ .empty = (.ok (st, report), disk') ∧
    Engine.start.Gives st.engine op e := by
  obtain ⟨d, hempty⟩ := Disk.exists_offersEmpty
  have hok : (Store.open ⟨"d", 1024, 1, false⟩ ⟨["d"]⟩ Disk.empty).1.isOk = true := by decide +kernel
  rcases hr : Store.open ⟨"d", 1024, 1, false⟩ ⟨["d"]⟩ Disk.empty with ⟨_ | ⟨st, report⟩, disk'⟩
  · rw [hr] at hok
    cases hok
  · obtain ⟨-, -, -, hu, -⟩ := open_gives hempty hr
    exact ⟨st, _, d, report, disk', _, _, rfl, hempty, hr, Engine.start_of_usable hu⟩

/-- So there are stores with two such collections. -/
theorem exists_hasPair (cluster : ClusterId) (r₁ r₂ : RecordRef) (v₁ v₂ : Int32) :
    ∃ x st, x.cluster = cluster ∧ HasPair ⟨["d"]⟩ 1024 x r₁ r₂ v₁ v₂ st := by
  obtain ⟨st₀, settings, d, report, disk', op, e, hsize, hempty, hopen, started⟩ := exists_opened
  obtain ⟨x, _, _, _, _, st, hx, -, -, h⟩ :=
    exists_pair Path.roomy_d hempty Disk.sound_empty rfl hopen started cluster r₁ r₂ v₁ v₂
  exact ⟨x, st, hx, hsize ▸ h⟩

namespace HasPair

variable (h : HasPair dir size x r₁ r₂ v₁ v₂ st)

include h

/-- An operation on the store begins with them. -/
theorem begun (started : Engine.start.Gives st.engine op e) :
    ∃ s, (Workspace.begun st e op).InHand size s (.pair x) (Shelves.only (.pair x r₁ r₂ v₁ v₂)) (.pair x) 4 := by
  obtain ⟨s, htidy, hlog⟩ := h.tidy
  exact ⟨s, begun_inHand htidy hlog started⟩

/-- The first one can get another entry. -/
theorem put_first (started : Engine.start.Gives st.engine op e) {r : RecordRef} (hr : r ≠ r₁) (value : Int32) :
    ∃ s w, (x.first.put r value).Gives (.begun st e op) none w ∧ w.store = (Workspace.begun st e op).store ∧
      w.InHand size s (.pair x) (Shelves.only ((Shelf.pair x r₁ r₂ v₁ v₂).withEntry x.first r value 1)) (.pair x)
        5 := by
  obtain ⟨s, hw⟩ := h.begun started
  obtain ⟨w, hput, hstore, hw'⟩ := hw.put_adds (c := x.first) (List.mem_cons_of_mem _ List.mem_cons_self)
    (List.mem_cons_of_mem _ List.mem_cons_self) (by decide) (Shelves.only_zero _) (Shelf.pair_ne_first hr) rfl
    (by decide) value
  rw [show x.first.storage = 0 from rfl, Shelves.update_only] at hw'
  exact ⟨s, w, hput, hstore, hw'⟩

/-- The pointer of the first one leads to a file. -/
theorem valid_first : x.first.pointer.isValid = true := by
  obtain ⟨s, htidy, -⟩ := h.tidy
  exact (htidy.shelved.filed.attached (htidy.shelved.stored (Shelves.only_zero _))).1

/-- Views show them. -/
theorem views : (view x.first.size).Gives st 1 st ∧ (view x.first.entries).Gives st [(r₁, v₁)] st ∧
    (view x.second.size).Gives st 1 st ∧ (view x.second.entries).Gives st [(r₂, v₂)] st := by
  obtain ⟨s, htidy, -⟩ := h.tidy
  obtain ⟨hsize, hentries, hsize', hentries'⟩ := Workspace.pair_answers (w := ⟨st, .none, []⟩) htidy
  exact ⟨view_gives h.usable hsize, view_gives h.usable hentries, view_gives h.usable hsize',
    view_gives h.usable hentries'⟩

end HasPair

end Store

end RefStore
