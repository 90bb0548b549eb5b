import RefStore.Proofs.IdCounts
import RefStore.Proofs.TreeContents

/-!
# Searches for an unused id

The search for the id of a new collection tries one number after another, and stops at the first id under
which the tree of the cluster has no entry. There always is one, and one round of the count is enough to
find it. Main statements: `Workspace.Backed.exists_unused`, `Store.ids_in_turn`.
-/

namespace RefStore

open Collection (Ledger)
open Workspace (nextCount)

namespace Workspace

variable {size n : Nat} {s : Stock} {w : Workspace} {x : ClusterStorage} {es : List Entry} {c f : CollectionId}
  {j fuel : ℕ} {m₀ : Mounted} {journal : Journal}

/-- Any id is met within one round. -/
theorem exists_iterate_eq (c : CollectionId) (hf : 1 ≤ f) : ∃ j < 2 ^ 63, nextCount^[j + 1] c = f := by
  have hf₁ : 1 ≤ f.toInt := Int64.le_iff_toInt_le.mp hf
  have hflt := f.toInt_lt
  by_cases hc : 0 ≤ c
  · have hc₀ : 0 ≤ c.toInt := Int64.le_iff_toInt_le.mp hc
    have hclt := c.toInt_lt
    refine ⟨((f.toInt - c.toInt - 1) % 2 ^ 63).toNat, by omega, Int64.toInt_inj.mp ?_⟩
    rw [toInt_iterate_nextCount hc]
    omega
  · -- a negative count starts from 0
    refine ⟨f.toInt.toNat, by omega, Int64.toInt_inj.mp ?_⟩
    rw [Function.iterate_succ_apply, nextCount_of_neg (Int64.not_le.mp hc),
      toInt_iterate_nextCount (Int64.le_refl 0), Int64.toInt_zero]
    omega

/-- The number that an attempt after so many others meets is an id without entries, the first one after
a count. -/
structure FirstUnused (es : List Entry) (c : CollectionId) (j : ℕ) : Prop where
  valid : 1 ≤ nextCount^[j + 1] c
  unused : ∀ e ∈ es, e.key.collection ≠ nextCount^[j + 1] c
  before : ∀ i < j, nextCount^[i + 1] c < 1 ∨ ∃ e ∈ es, e.key.collection = nextCount^[i + 1] c

theorem exists_firstUnused (c : CollectionId) (hf : 1 ≤ f) (hfree : ∀ e ∈ es, e.key.collection ≠ f) :
    ∃ j < 2 ^ 63, FirstUnused es c j := by
  obtain ⟨j, hj, rfl⟩ := exists_iterate_eq c hf
  have hex : ∃ j, 1 ≤ nextCount^[j + 1] c ∧ ∀ e ∈ es, e.key.collection ≠ nextCount^[j + 1] c := ⟨j, hf, hfree⟩
  classical
  obtain ⟨hvalid, hunused⟩ := Nat.find_spec hex
  refine ⟨Nat.find hex, Nat.lt_of_le_of_lt (Nat.find_min' hex ⟨hf, hfree⟩) hj, hvalid, hunused, fun i hi => ?_⟩
  have hnot := Nat.find_min hex hi
  refine or_iff_not_imp_left.mpr fun hpos => ?_
  by_contra hnone
  exact hnot ⟨Int64.not_lt.mp hpos, fun e he hid => hnone ⟨e, he, hid⟩⟩

/-- There is only one first unused id. -/
theorem FirstUnused.eq {i : ℕ} (h : FirstUnused es c j) (h' : FirstUnused es c i) : i = j := by
  have hnot {i j : ℕ} (h : FirstUnused es c j) (h' : FirstUnused es c i) : ¬ i < j := fun hlt => by
    rcases h.before i hlt with hneg | ⟨e, he, hid⟩
    · exact Int64.not_lt.mpr h'.valid hneg
    · exact h'.unused e he hid
  have h₁ := hnot h h'
  have h₂ := hnot h' h
  omega

/-- Fewer entries than ids leave an id without entries. -/
theorem exists_unused (hlen : es.length < 2 ^ 63 - 1) : ∃ f : CollectionId, 1 ≤ f ∧ ∀ e ∈ es, e.key.collection ≠ f := by
  by_contra hall
  push Not at hall
  have hnat (i : ℕ) (hi : i < es.length + 1) : (Int64.ofNat (i + 1)).toInt = i + 1 := by
    rw [Int64.toInt_ofNat_of_lt (by omega)]
    simp
  -- the first ids, one more than there are entries, would all have one
  have hnodup : ((List.range (es.length + 1)).map fun i => Int64.ofNat (i + 1)).Nodup := by
    refine List.Nodup.map_on (fun i hi k hk heq => ?_) List.nodup_range
    have hsame := congrArg Int64.toInt heq
    rw [hnat i (List.mem_range.mp hi), hnat k (List.mem_range.mp hk)] at hsame
    omega
  have hsub : (List.range (es.length + 1)).map (fun i => Int64.ofNat (i + 1)) ⊆ es.map fun e => e.key.collection := by
    intro id hid
    obtain ⟨i, hi, rfl⟩ := List.mem_map.mp hid
    obtain ⟨e, he, hid⟩ := hall (Int64.ofNat (i + 1)) (by
      rw [Int64.le_iff_toInt_le, hnat i (List.mem_range.mp hi), Int64.toInt_one]
      omega)
    exact List.mem_map.mpr ⟨e, he, hid⟩
  have hle := (hnodup.subperm hsub).length_le
  rw [List.length_map, List.length_map, List.length_range] at hle
  omega

/-- So there is always an id left for a new collection. -/
theorem Backed.exists_unused (h : w.Backed m₀ journal size s n) (hn : n < 2 ^ 63 - 1)
    (hx : x ∈ w.store.registry.storages) (hes : w.entries x = .ok es) :
    ∃ f : CollectionId, 1 ≤ f ∧ ∀ e ∈ es, e.key.collection ≠ f :=
  Workspace.exists_unused (Nat.lt_of_le_of_lt (h.length_entries_le hx hes) hn)

/-! ## The search -/

/-- The first attempt of a search, and what follows it. -/
theorem allocateId_start (tree : Tree) (fuel : ℕ) (w : Workspace) : (allocateId tree (fuel + 1)).start w =
    (if nextCount w.counter < 1 then allocateId tree fuel
      else do
        if (← onTree (tree.hasEntriesBetween (Key.range (nextCount w.counter)).1
          (Key.range (nextCount w.counter)).2)) then allocateId tree fuel
        else return nextCount w.counter).start (w.withCount (nextCount w.counter)) := by
  rw [allocateId, (Task.Gives.state w).start_bind]
  refine ((count_gives w).start_bind _).trans ?_
  rw [show w.store.registry.counter = w.counter from rfl]
  by_cases hpos : w.counter + 1 ≤ 0
  · have hzero : nextCount w.counter < 1 := by
      rw [nextCount, if_pos hpos]
      decide
    rw [if_pos hpos, if_pos hzero]
  · have hcount : nextCount w.counter = w.counter + 1 := if_neg hpos
    have hone : ¬ nextCount w.counter < 1 := by
      rw [hcount, Int64.not_lt, Int64.le_iff_toInt_le]
      exact Int64.lt_iff_toInt_lt.mp (Int64.not_le.mp hpos)
    rw [if_neg hpos, if_neg hone, hcount]

/-- Where all pages are in memory, a tree can tell whether it holds an entry under an id. -/
theorem Hosts.hasEntries_gives (h : w.Hosts size s n) (hx : x ∈ w.store.registry.storages)
    (hes : w.entries x = .ok es) (i : CollectionId) :
    (onTree (x.tree.hasEntriesBetween (Key.range i).1 (Key.range i).2)).Gives w
      (decide (∃ e ∈ es, e.key.collection = i)) w := by
  have hask := Tree.onTree_gives (w := w) (Tree.hasEntriesBetween_finds (h.housed x hx).attached.1 h.ample
    h.ready.pageSize ((h.entries_iff hx).mp hes).2 (Key.range i).1 (Key.range i).2)
  by_cases hi : ∃ e ∈ es, e.key.collection = i
  · obtain ⟨e, he, hid⟩ := hi
    have hsome : ((Tree.KeyRange.closed (Key.range i).1 (Key.range i).2).pick es).isEmpty = false :=
      List.isEmpty_eq_false_iff.mpr (List.ne_nil_of_mem (Tree.mem_ownEntries.mpr ⟨he, hid⟩))
    rw [hsome] at hask
    rwa [decide_eq_true ⟨e, he, hid⟩]
  · have hnone : Tree.ownEntries i es = [] := Tree.ownEntries_eq_nil fun e he hid => hi ⟨e, he, hid⟩
    rw [Tree.ownEntries] at hnone
    rw [hnone] at hask
    rwa [decide_eq_false hi]

/-- Where all pages are in memory, the search meets the first unused id and changes the count only. -/
theorem Hosts.allocateId_gives (h : w.Hosts size s n) (hx : x ∈ w.store.registry.storages)
    (hes : w.entries x = .ok es) (hj : j < fuel) (hfirst : FirstUnused es w.counter j) :
    (allocateId x.tree fuel).Gives w (nextCount^[j + 1] w.counter) (w.withCount (nextCount^[j + 1] w.counter)) := by
  obtain ⟨fuel, rfl⟩ := Nat.exists_eq_add_one_of_ne_zero (Nat.ne_of_gt (Nat.zero_lt_of_lt hj))
  induction j generalizing w fuel with
  | zero =>
    have hask := Hosts.hasEntries_gives (w := w.withCount (nextCount w.counter)) h hx hes (nextCount w.counter)
    rw [decide_eq_false fun ⟨e, he, hid⟩ => hfirst.unused e he hid] at hask
    have hpos : ¬ nextCount w.counter < 1 := Int64.not_lt.mpr hfirst.valid
    rw [Task.Gives, allocateId_start, if_neg hpos]
    exact hask.bind (.pure _ _)
  | succ j ih =>
    obtain ⟨fuel, rfl⟩ := Nat.exists_eq_add_one_of_ne_zero (n := fuel) (by omega)
    have hrest : FirstUnused es (nextCount w.counter) j :=
      ⟨hfirst.valid, hfirst.unused, fun i hi => hfirst.before (i + 1) (by omega)⟩
    have hagain : (allocateId x.tree (fuel + 1)).Gives (w.withCount (nextCount w.counter))
        (nextCount^[j + 1 + 1] w.counter) (w.withCount (nextCount^[j + 1 + 1] w.counter)) :=
      ih (w := w.withCount (nextCount w.counter)) h hx hes hrest fuel (by omega)
    rw [Task.Gives, allocateId_start]
    split
    · exact hagain
    · next hpos =>
      have hask := Hosts.hasEntries_gives (w := w.withCount (nextCount w.counter)) h hx hes (nextCount w.counter)
      have htaken : ∃ e ∈ es, e.key.collection = nextCount w.counter :=
        (hfirst.before 0 (Nat.succ_pos j)).resolve_left hpos
      rw [decide_eq_true htaken] at hask
      exact hask.bind hagain

/-- A count says nothing about files. -/
theorem Backed.withCount (h : w.Backed m₀ journal size s n) (c : CollectionId) :
    (w.withCount c).Backed m₀ journal size s n := by
  obtain ⟨hu, hj, m, hm, hosts⟩ := h
  exact ⟨hu, hj, m, hm, hosts⟩

/-- From any count, the search meets the first unused id. It changes the count, and no more than pages are
loaded. -/
theorem Backed.allocateId_gives (h : w.Backed m₀ journal size s n) (hx : x ∈ w.store.registry.storages)
    (hes : w.entries x = .ok es) (hf : 1 ≤ f) (hfree : ∀ e ∈ es, e.key.collection ≠ f) (c : CollectionId) :
    ∃ j w', FirstUnused es c j ∧ (allocateId x.tree idRound).Gives (w.withCount c) (nextCount^[j + 1] c) w' ∧
      (w.withCount (nextCount^[j + 1] c)).Beside Mounted.Twin journal w' := by
  obtain ⟨j, hj, hfirst⟩ := exists_firstUnused c hf hfree
  obtain ⟨m, hm, hosts⟩ := h.twin
  rw [h.entries_on hm] at hes
  have hsearch : (allocateId x.tree idRound).Gives ((w.withCount c).on m) (nextCount^[j + 1] c)
      ((w.withCount (nextCount^[j + 1] c)).on m) :=
    Hosts.allocateId_gives (w := (w.withCount c).on m) hosts hx hes hj hfirst
  obtain ⟨hsame, hbeside⟩ := allocateId_agrees (Mounted.Twin.serveAlike_from m₀).toReadAlike x.tree idRound _ _
    ((h.withCount c).beside hm)
  rw [hsearch.eq] at hsame hbeside
  refine ⟨j, ((allocateId x.tree idRound).start (w.withCount c)).2, hfirst, Prod.ext hsame rfl, ?_⟩
  exact ⟨⟨hm.trans hbeside.store.mounted.2.symm, ⟨h.journal, hbeside.store.journal.1⟩, hbeside.store.registry.symm⟩,
    hbeside.operation.symm, hbeside.undo.symm⟩

/-! ## Making a collection -/

/-- In a cluster that is registered a collection is made while some slot has not been given out. It gets the first
unused id. -/
theorem Hosts.createCollection_gives {cluster : ClusterId} {id : StorageId} {slot : SlotId} (h : w.Hosts size s n)
    (allowed : w.store.registry.prohibited = false) (hid : w.store.registry.registeredId? cluster = some id)
    (hx : w.store.registry.storages[id]? = some x) (hes : w.entries x = .ok es) (hj : j < idRound)
    (hfirst : FirstUnused es w.counter j) (hfree : w.slotCount x slot = refuse (.sizes (.slot .unknown slot))) :
    ∃ a w', (createCollection cluster).Gives w a w' ∧ a.id = nextCount^[j + 1] w.counter := by
  have hmem : x ∈ w.store.registry.storages := List.mem_of_getElem? hx
  have hatt := (h.housed x hmem).attached.2
  obtain ⟨q, hq⟩ := h.sizes hmem
  rw [h.slotCount_eq hmem hq slot] at hfree
  obtain ⟨ns, rfl, hlen⟩ : ∃ ns, q = some ns ∧ ns.length < UInt32.size := by
    cases q with
    | none => cases hfree
    | some ns =>
      refine ⟨ns, rfl, Nat.lt_of_not_le fun hle => ?_⟩
      have hlt : slot.toNat < ns.length := Nat.lt_of_lt_of_le slot.toNat_lt hle
      rw [Option.map_some, List.getElem?_eq_getElem hlt, SizeMap.countOf] at hfree
      split at hfree <;> cases hfree
  have hstorage : (Workspace.clusterStorage cluster).Gives w id w := by
    refine (Task.Gives.state w).bind ?_
    rw [hid]
    exact .pure id w
  obtain ⟨outcome, t', hstart, -, hok, -⟩ := SizeMap.add_finds hatt h.ample h.ready.pageSize hq.2
  cases outcome with
  | error cause => exact absurd (hok hlen) Bool.false_ne_true
  | ok slot =>
    have hadd : (onSizes x.sizes.add).Gives (w.withCount (nextCount^[j + 1] w.counter)) slot
        (Part.put t' (w.withCount (nextCount^[j + 1] w.counter))) := by
      rw [Task.Gives, onSizes, Task.start_onPart, Task.start_mapError]
      show (((x.sizes.add.start (Part.get w)).1.mapError CollectionError.sizes,
        Part.put (x.sizes.add.start (Part.get w)).2 _) : Checked CollectionError SlotId × Workspace) = _
      rw [hstart]
      rfl
    have hsearch := h.allocateId_gives hmem hes hj hfirst
    exact ⟨_, _, (checkAccess_of_allowed allowed).bind (hstorage.bind ((storageAt_gives hx).bind
      (hsearch.bind (hadd.bind (.pure _ _))))), rfl⟩

/-- Nor does it matter which pages are in memory. -/
theorem Backed.createCollection_gives {cluster : ClusterId} {id : StorageId} {slot : SlotId}
    (h : w.Backed m₀ journal size s n) (allowed : w.store.registry.prohibited = false)
    (hid : w.store.registry.registeredId? cluster = some id) (hx : w.store.registry.storages[id]? = some x)
    (hes : w.entries x = .ok es) (hj : j < idRound) (hfirst : FirstUnused es w.counter j)
    (hfree : w.slotCount x slot = refuse (.sizes (.slot .unknown slot))) :
    ∃ a w', (createCollection cluster).Gives w a w' ∧ a.id = nextCount^[j + 1] w.counter := by
  obtain ⟨m, hm, hosts⟩ := h.twin
  rw [h.entries_on hm] at hes
  rw [h.slotCount_on hm] at hfree
  obtain ⟨a, w', hg, ha⟩ := Hosts.createCollection_gives (w := w.on m) hosts allowed hid hx hes hj hfirst hfree
  obtain ⟨hsame, -⟩ := createCollection_agrees (Mounted.Twin.serveAlike_from m₀) cluster _ _ (h.beside hm)
  rw [hg.eq] at hsame
  exact ⟨a, ((createCollection cluster).start w).2, Prod.ext hsame rfl, ha⟩

end Workspace

namespace Store

/-- In a cluster with files the next operation can make a collection. It gets the first unused id. -/
theorem Registers.createCollection_gives {dir : Path} {place : Location} {size n j : ℕ} {s : Stock} {st : Store}
    {op : Operation} {e : Engine} {cluster : ClusterId} {f g : FileId} {es : List Entry} {ns : List Int32}
    (h : Registers dir place size s n st) (started : Engine.start.Gives st.engine op e)
    (hf : s.names f = some (Cluster.treeName cluster)) (hes : Tree.Written size es n (s.pages f))
    (hg : s.names g = some (Cluster.sizesName cluster)) (hns : SizeMap.Written size ns (s.pages g))
    (hlen : ns.length < UInt32.size) (hj : j < Workspace.idRound)
    (hfirst : Workspace.FirstUnused es st.registry.counter j) : ∃ a w,
      (Workspace.createCollection cluster).Gives (.begun st e op) a w ∧
        a.id = nextCount^[j + 1] st.registry.counter := by
  obtain ⟨-, b, -, -, hb⟩ := h.loads (p := ⟨f, cluster, 0, 0⟩) hf
  obtain ⟨hmem, htree, hsizes⟩ := h.storage_gives hb
  obtain rfl := h.houses.serves.inj htree hf
  obtain rfl := h.houses.serves.inj hsizes hg
  obtain ⟨id, hreg, hid⟩ := Option.bind_eq_some_iff.mp hb
  have hpast : ns[(UInt32.ofNat ns.length).toNat]? = none := by
    rw [UInt32.toNat_ofNat_of_lt' hlen]
    exact List.getElem?_eq_none (Nat.le_refl _)
  have hslot : (Workspace.begun st e op).slotCount b (.ofNat ns.length) =
      refuse (.sizes (.slot .unknown (.ofNat ns.length))) := by
    rw [h.houses.slotCount_begun started hmem hg hns, hpast]
    rfl
  exact (h.houses.backed started).createCollection_gives (w := .begun st e op) h.allowed hreg hid
    (h.houses.entries_begun started hmem hf hes) hj hfirst hslot

/-- From any count, the search for an id in the tree of a cluster ends with the first id, in the order of
counting, under which the tree has no entry. So the ids that an open store hands out, in whatever clusters
and however its operations end, are met one after another, and go up until the count passes the largest id. -/
theorem ids_in_turn :
    (∀ {dir : Path} {size n k : Nat} {st : Store} {op : Operation} {e : Engine} {w : Workspace} {id : StorageId}
      {x : ClusterStorage} {es : List Entry} {f : CollectionId}, Directory.Lives dir size (.inUse st) n → dir.Roomy →
      Engine.start.Gives st.engine op e → (Workspace.begun st e op).Performs k w → n + k < 2 ^ 61 →
      w.store.registry.storages[id]? = some x → w.entries x = .ok es →
      1 ≤ f → (∀ e ∈ es, e.key.collection ≠ f) → ∀ c : CollectionId,
      ∃ j w', Workspace.FirstUnused es c j ∧
        (Workspace.allocateId x.tree Workspace.idRound).Gives (w.withCount c) (nextCount^[j + 1] c) w' ∧
        w'.counter = nextCount^[j + 1] c ∧
        (w.withCount (nextCount^[j + 1] c)).Beside Mounted.Twin w.store.engine.journal w') ∧
    ∀ {settings : Settings} {dir : Path} {disk disk' : Disk} {st st' : Store} {report : RecoveryReport}
      {ids : List CollectionId}, Store.open settings dir disk = (.ok (st, report), disk') → st.Issues ids st' →
      (∀ id ∈ ids, 1 ≤ id) ∧ ∃ ms : List ℕ, ids = ms.map (nextCount^[·] st.registry.counter) ∧ (∀ j ∈ ms, 0 < j) ∧
        ms.Pairwise fun i j : ℕ => i < j ∧ (st.registry.counter.toInt + j < 2 ^ 63 →
          nextCount^[i] st.registry.counter < nextCount^[j] st.registry.counter) := by
  refine ⟨?_, ?_⟩
  · intro dir size n k st op e w id x es f h hdir started work hn hx hes hf hfree c
    obtain ⟨s, hb⟩ := h.backed hdir started work hn
    obtain ⟨j, w', hfirst, hsearch, hbeside⟩ :=
      hb.allocateId_gives (List.mem_of_getElem? hx) hes hf hfree c
    refine ⟨j, w', hfirst, hsearch, congrArg Registry.counter hbeside.store.registry.symm, ?_⟩
    rw [hb.journal]
    exact hbeside
  · intro settings dir disk disk' st st' report ids opening issues
    exact ⟨issues.handsOut.valid, issues.handsOut.pairwise (Collection.nonneg_open opening)⟩

/-- A new store has given out the ids 1 and 2, and the tree has an entry under each. A search that starts
below 0 passes them. -/
theorem id_found_from_negative : ∃ (st st' : Store) (x : ClusterStorage) (op : Operation) (e : Engine)
    (w : Workspace), st.Issues [1, 2] st' ∧ (∃ ms : List ℕ, [1, 2] = ms.map (nextCount^[·] st.registry.counter)) ∧
      Directory.Lives ⟨["d"]⟩ 1024 (.inUse st') 4 ∧ Engine.start.Gives st'.engine op e ∧
      (Workspace.begun st' e op).store.registry.storages[0]? = some x ∧
      (Workspace.begun st' e op).entries x = .ok [⟨x.first.key ⟨1, 1⟩, 10⟩, ⟨x.second.key ⟨1, 1⟩, 20⟩] ∧
      (Workspace.allocateId x.tree Workspace.idRound).Gives ((Workspace.begun st' e op).withCount (-5)) 3 w ∧
      w.counter = 3 := by
  have hdir := Path.roomy_d
  obtain ⟨st, settings, d, report, disk', op₀, e₀, hsize, hempty, hopen, started₀⟩ := exists_opened
  obtain ⟨x, _, _, _, w₀, st', hcluster, makes, run, h⟩ :=
    exists_pair hdir hempty Disk.sound_empty rfl hopen started₀ 1 ⟨1, 1⟩ ⟨1, 1⟩ 10 20
  rw [hsize] at h
  have issues : st.Issues [1, 2] st' := by
    have after := Issues.operation .nothing started₀ (Workspace.makePair x.cluster ⟨1, 1⟩ ⟨1, 1⟩ 10 20)
      (by rw [makes.gives.eq]; exact makes.issues)
    rwa [hcluster, run.eq] at after
  obtain ⟨-, ms, hids, -⟩ := ids_in_turn.2 hopen issues
  obtain ⟨op, e, started⟩ := Engine.exists_start h.usable
  have lives : Directory.Lives ⟨["d"]⟩ 1024 (.inUse st') 4 := .of_built h.built hdir (by decide)
  obtain ⟨s, hw⟩ := h.begun started
  obtain ⟨hx, hes, -⟩ := Workspace.pair_contents hw.now
  have htaken (i : CollectionId) : (∃ en ∈ ([⟨x.first.key ⟨1, 1⟩, 10⟩, ⟨x.second.key ⟨1, 1⟩, 20⟩] : List Entry),
      en.key.collection = i) ↔ 1 = i ∨ 2 = i := Shelf.exists_mem_pair
  have hfree : ∀ en ∈ ([⟨x.first.key ⟨1, 1⟩, 10⟩, ⟨x.second.key ⟨1, 1⟩, 20⟩] : List Entry), en.key.collection ≠ 3 :=
    fun en hen hid => absurd ((htaken 3).mp ⟨en, hen, hid⟩) (by decide)
  have hthird : nextCount^[3 + 1] (-5) = 3 := by decide
  have hlast : Workspace.FirstUnused [⟨x.first.key ⟨1, 1⟩, 10⟩, ⟨x.second.key ⟨1, 1⟩, 20⟩] (-5) 3 := by
    refine ⟨by decide, by rwa [hthird], fun i hi => ?_⟩
    rw [htaken]
    decide +revert
  obtain ⟨j, w, hfirst, hsearch, hcount, -⟩ :=
    ids_in_turn.1 lives hdir started .nothing (by decide) hx hes (by decide) hfree (-5)
  obtain rfl := hlast.eq hfirst
  rw [hthird] at hsearch hcount
  exact ⟨st, st', x, op, e, w, issues, ⟨ms, hids⟩, lives, started, hx, hes, hsearch, hcount⟩

end Store

end RefStore
