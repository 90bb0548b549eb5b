import RefStore.Proofs.FirstCollections
import RefStore.Proofs.StoreLives

/-!
# Contents of trees

What a workspace shows of a cluster as a whole: all entries of its tree, their number, the last key, and
the count of each slot. All this is told by what the files hold, whatever pages are in memory. Main
statements: `Workspace.Hosts.entries_iff`, `Workspace.Backed.exists_entries`.
-/

namespace RefStore

namespace Tree

variable {size n : Nat} {es : List Entry} {t : Transaction} {tree : Tree} {base : List Page}

namespace KeyRange

/-- All keys there are. -/
def all : KeyRange := .closed (.of Int64.minValue .least) (.of Int64.maxValue .greatest)

theorem covers_all (key : Key) : all.Covers key := by
  have hcovers : all.Covers key ↔
      ¬ key < Key.of Int64.minValue .least ∧ ¬ Key.of Int64.maxValue .greatest < key := by
    rw [not_lt, not_lt]
    rfl
  have h₁ : ¬ key.collection < Int64.minValue := Int64.not_lt.mpr (Int64.minValue_le _)
  have h₂ : ¬ Int64.maxValue < key.collection := Int64.not_lt.mpr (Int64.le_maxValue _)
  have h₃ : ¬ key.cluster < Int32.minValue := Int32.not_lt.mpr (Int32.minValue_le _)
  have h₄ : ¬ key.position < Int64.minValue := Int64.not_lt.mpr (Int64.minValue_le _)
  have h₅ : ¬ Int32.maxValue < key.cluster := Int32.not_lt.mpr (Int32.le_maxValue _)
  have h₆ : ¬ Int64.maxValue < key.position := Int64.not_lt.mpr (Int64.le_maxValue _)
  rw [hcovers, Key.lt_iff, Key.lt_iff]
  simp [Key.of, RecordRef.least, RecordRef.greatest, h₁, h₂, h₃, h₄, h₅, h₆]

theorem pick_all (es : List Entry) : all.pick es = es :=
  List.filter_eq_self.mpr fun e he => (List.mem_filter.mp (mem_pick.mpr ⟨he, covers_all e.key⟩)).2

end KeyRange

theorem Written.inOrder {pages : List Page} (h : Written size es n pages) : Entries.InOrder es := by
  obtain ⟨⟨s, _, b, -, hb, rfl, -⟩, -⟩ := h
  exact hb.ordered.entries.1

section

variable (hatt : tree.component.isAttached) (hample : Ample size) (hps : t.mounted.volume.pageSize = size)
  (h : t.Finds tree.component.file base (Written size es n))

include hatt hample hps h

theorem entryCount_finds : ∃ k : UInt64, tree.entryCount.Gives t k t ∧ k.toNat = es.length := by
  obtain ⟨s, _, b, hs, hb, rfl, -⟩ := exists_shown hample hps h
  exact ⟨_, hs.entryCount hatt, hb.count⟩

theorem lastKey_finds : tree.lastKey.Gives t (es.getLast?.map Entry.key) t := by
  obtain ⟨s, _, b, hs, hb, rfl, -⟩ := exists_shown hample hps h
  exact hs.lastKey hatt hb

/-- Some entry stands in a range, or none. -/
theorem hasEntriesBetween_finds (low high : Key) :
    (tree.hasEntriesBetween low high).Gives t (!((KeyRange.closed low high).pick es).isEmpty) t := by
  have hscan := scan_finds hatt hample hps h (.closed low high) (some 1)
  have hsome : ((limited (some 1) ((KeyRange.closed low high).pick es)).head?.map Entry.key).isSome =
      !((KeyRange.closed low high).pick es).isEmpty := by
    cases (KeyRange.closed low high).pick es <;> rfl
  have hfirst : (tree.firstKeyBetween low high).Gives t _ t := hscan.bind (.pure _ t)
  rw [← hsome]
  exact hfirst.bind (.pure _ t)

end

end Tree

namespace Workspace

variable {size n : Nat} {s : Stock} {w : Workspace} {x : ClusterStorage} {m m₀ : Mounted} {journal : Journal}
  {es : List Entry} {o : Option (List Entry)} {q : Option (List Int32)} {c : Collection}
  {own : List (RecordRef × Int32)}

/-- All entries of the tree of a cluster. -/
def entries (w : Workspace) (x : ClusterStorage) : Checked CollectionError (List Entry) :=
  ((onTree (x.tree.scan .all none)).start w).1

/-- The number of entries that the tree of a cluster says it has. -/
def entryCount (w : Workspace) (x : ClusterStorage) : Checked CollectionError UInt64 :=
  ((onTree x.tree.entryCount).start w).1

/-- What the size map of a cluster counts in a slot. -/
def slotCount (w : Workspace) (x : ClusterStorage) (slot : SlotId) : Checked CollectionError Int32 :=
  ((onSizes (x.sizes.count slot)).start w).1

section

variable (h : w.Hosts size s n) (hx : x ∈ w.store.registry.storages)

include h hx

theorem Hosts.entries_eq
    (ho : (Part.get w : Transaction).Holds (fun es => Tree.Written size es n) s x.treeFile o) :
    w.entries x = o.elim (refuse (.tree (.storage (.unknownFile x.treeFile)))) .ok := by
  have hatt := (h.housed x hx).attached.1
  cases o with
  | none =>
    rw [entries, onTree, Task.start_onPart, Task.start_mapError, Tree.scan_unseen h.ready.based ho hatt]
    rfl
  | some es =>
    have hg := Tree.onTree_gives (Tree.scan_finds hatt h.ample h.ready.pageSize ho.2 .all none)
    rw [Tree.limited_none, Tree.KeyRange.pick_all] at hg
    rw [entries, hg.eq]
    rfl

/-- A scan of the whole tree shows what its file holds. -/
theorem Hosts.entries_iff : w.entries x = .ok es ↔
    (Part.get w : Transaction).Holds (fun es => Tree.Written size es n) s x.treeFile (some es) := by
  refine ⟨fun hes => ?_, h.entries_eq hx⟩
  obtain ⟨o, ho⟩ := h.tree hx
  rw [h.entries_eq hx ho] at hes
  cases o with
  | none => cases hes
  | some es' =>
    cases hes
    exact ho

theorem Hosts.entryCount_of_entries (hes : w.entries x = .ok es) :
    ∃ k : UInt64, w.entryCount x = .ok k ∧ k.toNat = es.length := by
  have ho := (h.entries_iff hx).mp hes
  obtain ⟨k, hk, hlen⟩ := Tree.entryCount_finds (h.housed x hx).attached.1 h.ample h.ready.pageSize ho.2
  exact ⟨k, congrArg Prod.fst (Tree.onTree_gives hk).eq, hlen⟩

theorem Hosts.slotCount_eq (hq : (Part.get w : Transaction).Holds (SizeMap.Written size) s x.sizesFile q)
    (slot : SlotId) : w.slotCount x slot =
      (SizeMap.countOf x.sizesFile slot (q.map fun ns => ns[slot.toNat]?)).mapError .sizes := by
  rw [slotCount, onSizes, Task.start_onPart, Task.start_mapError,
    SizeMap.count_eq (h.housed x hx).attached.2 h.ample h.ready.based hq slot]

end

section

variable {shelves : Shelves} {roll : Collection.Roll} {id : StorageId} {sh : Shelf}
  (h : Tidy size s (Part.get w) w.store.registry shelves roll n) (hid : shelves id = some sh)

include h hid

/-- What the files of a shelf hold is what it has. -/
theorem entries_shelf : w.entries sh.storage = .ok sh.entries := by
  have hscan := Tree.onTree_gives (w := w) (Tree.scan_finds (h.shelved.filed.attached (h.shelved.stored hid)).1
    h.shelved.ample h.shelved.ready.pageSize (h.shelved.stands hid).tree .all none)
  rw [Tree.limited_none, Tree.KeyRange.pick_all] at hscan
  exact congrArg Prod.fst hscan.eq

theorem slotCount_shelf (slot : SlotId) : w.slotCount sh.storage slot =
    (SizeMap.countOf sh.storage.sizesFile slot (some sh.numbers[slot.toNat]?)).mapError .sizes := by
  have hq : (Part.get w : Transaction).Holds (SizeMap.Written size) s sh.storage.sizesFile (some sh.numbers) :=
    ⟨(h.shelved.stands hid).seesSizes, (h.shelved.stands hid).sizes⟩
  rw [slotCount, onSizes, Task.start_onPart, Task.start_mapError,
    SizeMap.count_eq (h.shelved.filed.attached (h.shelved.stored hid)).2 h.shelved.ample h.shelved.ready.based hq slot]
  rfl

end

/-- So it is where two collections have an entry each. -/
theorem pair_contents {roll : Collection.Roll} {r₁ r₂ : RecordRef} {v₁ v₂ : Int32}
    (h : Tidy size s (Part.get w) w.store.registry (Shelves.only (.pair x r₁ r₂ v₁ v₂)) roll n) :
    w.store.registry.storages[0]? = some x ∧
      w.entries x = .ok [⟨x.first.key r₁, v₁⟩, ⟨x.second.key r₂, v₂⟩] ∧
      ∀ slot, w.slotCount x slot =
        (SizeMap.countOf x.sizesFile slot (some ([1, 1] : List Int32)[slot.toNat]?)).mapError .sizes := by
  have hid := Shelves.only_zero (.pair x r₁ r₂ v₁ v₂)
  have hes := entries_shelf h hid
  have hslots := slotCount_shelf h hid
  exact ⟨h.shelved.stored hid, hes, hslots⟩

/-- A collection lists its entries from the tree of its cluster. -/
theorem Hosts.exists_own (h : w.Hosts size s n) (lists : (c.entries.start w).1 = .ok own) : ∃ x es,
    w.store.registry.storages[c.storage]? = some x ∧ w.entries x = .ok es ∧
      own = (Tree.ownEntries c.id es).map fun e => (e.key.record, e.value) := by
  cases hx : w.store.registry.storages[c.storage]? with
  | none =>
    have hstart : c.entries.start w = (halt .foreignHandle, w) := by
      rw [Collection.entries, Task.start_bind, storageAt, (Task.Gives.state w).start_bind, hx]
      rfl
    rw [hstart] at lists
    cases lists
  | some x =>
    have hmem : x ∈ w.store.registry.storages := List.mem_of_getElem? hx
    have hatt := (h.housed x hmem).attached.1
    obtain ⟨o, ho⟩ := h.tree hmem
    rw [Collection.entries, (storageAt_gives hx).start_bind] at lists
    cases o with
    | none =>
      have hscan : (onTree (x.tree.scan (.closed (Key.range c.id).1 (Key.range c.id).2) none)).start w =
          (refuse (.tree (.storage (.unknownFile x.tree.component.file))), w) := by
        rw [onTree, Task.start_onPart, Task.start_mapError, Tree.scan_unseen h.ready.based ho hatt]
        rfl
      dsimp only at lists
      rw [Task.start_bind_error hscan] at lists
      cases lists
    | some es =>
      have hscan := Tree.onTree_gives (Tree.scan_finds hatt h.ample h.ready.pageSize ho.2
        (.closed (Key.range c.id).1 (Key.range c.id).2) none)
      rw [Tree.limited_none] at hscan
      dsimp only at lists
      rw [hscan.start_bind] at lists
      exact ⟨x, es, rfl, h.entries_eq hmem ho, (Except.ok.inj lists).symm⟩

namespace Backed

section

variable (h : w.Backed m₀ journal size s n) (hm : w.store.engine.mounted.Twin m)

include h hm

/-- What is read does not depend on the pages that are in memory. -/
theorem start_on {α : Type} {t : Task Workspace CollectionError α}
    (ht : t.Agrees (Beside (fun m m' => m₀.Unchanged m ∧ m.Twin m') journal)) :
    (t.start w).1 = (t.start (w.on m)).1 :=
  (ht _ _ (h.beside hm)).1

theorem entries_on (x : ClusterStorage) : w.entries x = (w.on m).entries x :=
  h.start_on hm (onTree_agrees (Tree.scan_agrees (Mounted.Twin.serveAlike_from m₀).toReadAlike _ _ _))

theorem entryCount_on (x : ClusterStorage) : w.entryCount x = (w.on m).entryCount x :=
  h.start_on hm (onTree_agrees (Tree.entryCount_agrees (Mounted.Twin.serveAlike_from m₀).toReadAlike _))

theorem slotCount_on (x : ClusterStorage) (slot : SlotId) : w.slotCount x slot = (w.on m).slotCount x slot :=
  h.start_on hm (onSizes_agrees (SizeMap.count_agrees (Mounted.Twin.serveAlike_from m₀).toReadAlike _ _))

end

/-- Trees hold no more entries than were put. -/
theorem length_entries_le (h : w.Backed m₀ journal size s n) (hx : x ∈ w.store.registry.storages)
    (hes : w.entries x = .ok es) : es.length ≤ n := by
  obtain ⟨m, hm, hosts⟩ := h.twin
  rw [h.entries_on hm] at hes
  obtain ⟨-, pages, -, hwritten⟩ := (hosts.entries_iff hx).mp hes
  exact hwritten.length_le

/-- Where a collection lists its entries, the tree of its cluster can be scanned. -/
theorem exists_entries (h : w.Backed m₀ journal size s n) (lists : (c.entries.start w).1 = .ok own) :
    ∃ x es, w.store.registry.storages[c.storage]? = some x ∧ w.entries x = .ok es := by
  obtain ⟨m, hm, hosts⟩ := h.twin
  rw [h.start_on hm (c.entries_agrees (Mounted.Twin.serveAlike_from m₀).toReadAlike)] at lists
  obtain ⟨x, es, hx, hes, -⟩ := hosts.exists_own lists
  exact ⟨x, es, hx, (h.entries_on hm x).trans hes⟩

end Backed

end Workspace

/-! ## When an operation begins -/

namespace Store.Houses

variable {dir : Path} {place : Location} {size n : Nat} {s : Stock} {st : Store} {op : Operation} {e : Engine}
  {b : ClusterStorage} {x : String} {es : List Entry} {ns : List Int32}

section

variable (h : st.Houses dir place size s n) (started : Engine.start.Gives st.engine op e)
  (hb : b ∈ st.registry.storages)

include h started hb

theorem entries_begun (hx : s.names b.treeFile = some x) (hes : Tree.Written size es n (s.pages b.treeFile)) :
    (Workspace.begun st e op).entries b = .ok es := by
  have hbacked := h.backed started
  obtain ⟨-, rfl, rfl⟩ := Engine.start_eq started
  obtain ⟨m, hm, hs, hl, hosts⟩ := h.exists_hosts _
  refine (hbacked.entries_on hm b).trans ?_
  refine Workspace.Hosts.entries_eq (w := (Workspace.begun st _ _).on m) (o := some es) hosts hb
    ⟨⟨x, .inr ⟨hx, ?_⟩⟩, ?_⟩
  · exact Std.TreeSet.not_mem_emptyc
  · exact Transaction.finds_begun hs hl hx hes _

theorem slotCount_begun (hx : s.names b.sizesFile = some x) (hns : SizeMap.Written size ns (s.pages b.sizesFile))
    (slot : SlotId) : (Workspace.begun st e op).slotCount b slot =
      (SizeMap.countOf b.sizesFile slot (some ns[slot.toNat]?)).mapError .sizes := by
  have hbacked := h.backed started
  obtain ⟨-, rfl, rfl⟩ := Engine.start_eq started
  obtain ⟨m, hm, hs, hl, hosts⟩ := h.exists_hosts _
  refine (hbacked.slotCount_on hm b slot).trans ?_
  refine Workspace.Hosts.slotCount_eq (w := (Workspace.begun st _ _).on m) (q := some ns) hosts hb
    ⟨⟨x, .inr ⟨hx, ?_⟩⟩, ?_⟩ slot
  · exact Std.TreeSet.not_mem_emptyc
  · exact Transaction.finds_begun hs hl hx hns _

end

end Store.Houses

/-- What the files of a store with two collections hold. -/
theorem Store.HasPair.stocked {dir : Path} {size : Nat} {x : ClusterStorage} {r₁ r₂ : RecordRef} {v₁ v₂ : Int32}
    {st : Store} (h : HasPair dir size x r₁ r₂ v₁ v₂ st) (hdir : dir.Roomy) : ∃ place s ns,
      Registers dir place size s 4 st ∧ (∀ {c f}, s.names f = some (Cluster.treeName c) → c = x.cluster) ∧
      s.names x.treeFile = some (Cluster.treeName x.cluster) ∧
      s.names x.sizesFile = some (Cluster.sizesName x.cluster) ∧
      Tree.Written size [⟨x.first.key r₁, v₁⟩, ⟨x.second.key r₂, v₂⟩] 4 (s.pages x.treeFile) ∧
      SizeMap.Written size ns (s.pages x.sizesFile) ∧ ns.length ≤ 2 := by
  obtain ⟨place, s, hr, hE⟩ := h.built.registers hdir (by decide)
  obtain ⟨op, e, started⟩ := Engine.exists_start h.usable
  obtain ⟨_, hw⟩ := h.begun started
  obtain ⟨hx, hes, hslots⟩ := Workspace.pair_contents hw.now
  have hmem : x ∈ st.registry.storages := List.mem_of_getElem? hx
  have hname : s.names x.treeFile = some (Cluster.treeName x.cluster) :=
    hr.matched.clusters.mp (hE.pointers (p := x.second.pointer) List.mem_cons_self)
  obtain ⟨s', htidy, -⟩ := h.tidy
  have hload : (loadCollection x.second.pointer).Gives st x.second st :=
    loadCollection_gives htidy List.mem_cons_self (Shelves.only_zero _) rfl
  have hsizes : s.names x.sizesFile = some (Cluster.sizesName x.cluster) := by
    obtain ⟨id, b, hload', hb, hst⟩ := hr.loads (p := x.second.pointer) hname
    obtain rfl : id = 0 := congrArg Collection.storage (hload'.unique hload).1
    obtain rfl := Option.some.inj (hb.symm.trans hx)
    exact (hr.storage_gives hst).2.2
  obtain ⟨es, hes'⟩ := (hr.houses.furnished hname).tree
  obtain ⟨ns, hns⟩ := (hr.houses.furnished hsizes).sizes
  obtain rfl := Except.ok.inj ((hr.houses.entries_begun started hmem hname hes').symm.trans hes)
  refine ⟨place, s, ns, hr, fun {c f} hf => ?_, hname, hsizes, hes', hns, Nat.le_of_not_lt fun hlt => ?_⟩
  · have hc := hE.clusters.mpr (Std.TreeMap.mem_iff_isSome_getElem?.mpr (by rw [hr.matched.clusters.mpr hf]; rfl))
    simpa [Estate.pair] using hc
  · -- the slot after those of the collections is not known
    have hthird := (hr.houses.slotCount_begun started hmem hsizes hns 2).symm.trans (hslots 2)
    rw [List.getElem?_eq_getElem (show (2 : SlotId).toNat < ns.length from hlt), SizeMap.countOf] at hthird
    split at hthird <;> cases hthird

end RefStore
