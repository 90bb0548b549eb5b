import Mathlib.Order.Bounds.Basic
import RefStore.Proofs.IdSearches
import RefStore.Proofs.LoadedClusters

/-!
# Ids after a store was opened again

When a directory is opened, every cluster with a tree file is registered, and the count goes on from the
greatest id under which any of the trees holds an entry. So no id is handed out under which an entry was
left, until the count has passed the largest id. Main statement: `Directory.Lives.ids_exceed_entries`.
-/

namespace RefStore

open Cluster (treeName)

/-- The greatest of some numbers and of more. -/
theorem isGreatest_insert_union {a b c : CollectionId} {s t : Set CollectionId} (h : IsGreatest (insert a s) b)
    (h' : IsGreatest (insert b t) c) : IsGreatest (insert a (s ∪ t)) c := by
  have hbc : b ≤ c := h'.2 (Set.mem_insert b t)
  refine ⟨?_, fun d hd => ?_⟩
  · rcases h'.1 with rfl | hc
    · exact h.1.imp_right .inl
    · exact .inr (.inr hc)
  · rcases hd with rfl | hd | hd
    · exact Int64.le_trans (h.2 (Set.mem_insert d s)) hbc
    · exact Int64.le_trans (h.2 (.inr hd)) hbc
    · exact h'.2 (.inr hd)

/-- The greatest of a number and the ids of some entries is told by the last entry. -/
theorem isGreatest_last {es : List Entry} (h : Entries.InOrder es) (a : CollectionId) :
    IsGreatest (insert a { i | ∃ e ∈ es, e.key.collection = i })
      ((es.getLast?.map fun e => max a e.key.collection).getD a) := by
  rcases List.eq_nil_or_concat es with rfl | ⟨init, last, rfl⟩
  · refine ⟨.inl rfl, ?_⟩
    rintro b (rfl | ⟨e, he, -⟩)
    · exact Int64.le_refl b
    · cases he
  rw [List.concat_eq_append] at h ⊢
  rw [List.getLast?_concat, Option.map_some, Option.getD_some]
  have hlast : ∀ e ∈ init ++ [last], e.key.collection ≤ last.key.collection := by
    intro e he
    rcases List.mem_append.mp he with he | he
    · have hlt : e.key < last.key := (List.pairwise_append.mp h).2.2 e he last List.mem_cons_self
      exact (Key.lt_iff.mp hlt).elim Int64.le_of_lt fun hsame => hsame.1 ▸ Int64.le_refl _
    · rw [List.mem_singleton.mp he]
      exact Int64.le_refl _
  dsimp only [max, maxOfLe]
  split
  · next hle =>
    refine ⟨.inr ⟨last, List.mem_append_right _ List.mem_cons_self, rfl⟩, ?_⟩
    rintro b (rfl | ⟨e, he, rfl⟩)
    · exact hle
    · exact hlast e he
  · next hgt =>
    refine ⟨.inl rfl, ?_⟩
    rintro b (rfl | ⟨e, he, rfl⟩)
    · exact Int64.le_refl b
    · exact Int64.le_trans (hlast e he) (Int64.le_of_lt (Int64.not_le.mp hgt))

namespace Registry

variable {idOf : String → Option FileId} {r : Registry} {c : ClusterId} {f : FileId} {sizes : SizeMap}

/-- The registered clusters have their trees in the files with their names. -/
def Attaches (idOf : String → Option FileId) (r : Registry) : Prop :=
  ∀ c f, r.clusters[c]? = some f → idOf (treeName c) = some f ∧
    ∃ x, r.storage? c = some x ∧ x.tree = (Cluster.storage c).tree.attached f

theorem Attaches.empty (idOf : String → Option FileId) : Attaches idOf .empty := by
  intro c f hc
  rw [Registry.empty, Std.TreeMap.getElem?_emptyc] at hc
  cases hc

theorem storage?_of_clusters (h : r.clusters[c]? = some f) :
    r.storage? c = r.registered[f]?.bind fun id => r.storages[id]? := by
  rw [storage?, registeredId?, h, Option.bind_some]

/-- One more cluster is registered. -/
theorem Attaches.register (h : r.Attaches idOf) (hf : idOf (treeName c) = some f)
    (inj : ∀ {x y g}, idOf x = some g → idOf y = some g → x = y) :
    (r.register ⟨c, (Cluster.storage c).tree.attached f, sizes⟩).Attaches idOf := by
  intro c' f' hc'
  have hclusters : (r.clusters.insert c f)[c']? = some f' := hc'
  rw [lookup_insert] at hclusters
  rw [storage?_of_clusters hc']
  show _ ∧ ∃ x, ((r.registered.insert f r.storages.length)[f']?.bind fun id =>
    (r.storages ++ [⟨c, (Cluster.storage c).tree.attached f, sizes⟩])[id]?) = some x ∧ _
  rw [lookup_insert]
  split at hclusters
  · next he =>
    subst he
    obtain rfl := Option.some.inj hclusters
    rw [if_pos rfl]
    exact ⟨hf, _, List.getElem?_concat_length, rfl⟩
  · next hne =>
    obtain ⟨hid, x, hx, htree⟩ := h c' f' hclusters
    have hapart : f' ≠ f := fun he => hne (Cluster.treeName_injective (inj hid (he ▸ hf)))
    rw [storage?_of_clusters hclusters, Option.bind_eq_some_iff] at hx
    obtain ⟨id, hreg, hx⟩ := hx
    rw [if_neg hapart, hreg]
    exact ⟨hid, x, (List.getElem?_append_left (List.getElem?_eq_some_iff.mp hx).1).trans hx, htree⟩

end Registry

namespace Store

variable {α : Type} {dir : Path} {place : Location} {size n : Nat} {s : Stock} {st st' : Store} {c : ClusterId}
  {f : FileId} {clusters found : List ClusterId} {idOf : String → Option FileId} {es : List Entry}

/-! ## What the trees hold -/

/-- All entries of the tree in a file of a cluster, as a view shows them. -/
def treeEntries (st : Store) (cluster : ClusterId) (f : FileId) : Checked CollectionError (List Entry) :=
  ((view (Workspace.onTree (((Cluster.storage cluster).tree.attached f).scan .all none))).start st).1

/-- The ids under which the trees of clusters hold entries. -/
def entryIds (st : Store) : Set CollectionId :=
  { i | ∃ cluster f es e, st.volume.idOf? (treeName cluster) = some f ∧ st.treeEntries cluster f = .ok es ∧
    e ∈ es ∧ e.key.collection = i }

end Store

/-- The ids under which the trees of some clusters hold entries. -/
def Stock.treeIds (size n : Nat) (s : Stock) (clusters : List ClusterId) : Set CollectionId :=
  { i | ∃ c ∈ clusters, ∃ f es e, s.names f = some (treeName c) ∧ Tree.Written size es n (s.pages f) ∧ e ∈ es ∧
    e.key.collection = i }

theorem Stock.treeIds_cons (size n : Nat) (s : Stock) (c : ClusterId) (clusters : List ClusterId) :
    s.treeIds size n (c :: clusters) = s.treeIds size n [c] ∪ s.treeIds size n clusters := by
  ext i
  simp [treeIds, or_and_right, exists_or]

namespace Store

variable {α : Type} {dir : Path} {place : Location} {size n : Nat} {s : Stock} {st st' : Store} {c : ClusterId}
  {f : FileId} {clusters found : List ClusterId} {idOf : String → Option FileId} {es : List Entry}

namespace Houses

section

variable (h : st.Houses dir place size s n)

include h

theorem exists_written (hf : s.names f = some (treeName c)) : ∃ es, Tree.Written size es n (s.pages f) :=
  (h.furnished hf).tree

/-- What a view answers about a tree is told on a volume with all pages in memory. -/
theorem view_tree (hu : st.engine.journal.broken = false) {t : Task Transaction TreeError α}
    (ht : t.Agrees (Transaction.Beside Mounted.Twin)) (hf : s.names f = some (treeName c))
    (hes : Tree.Written size es n (s.pages f)) {a : α}
    (hg : ∀ u : Transaction, u.mounted.volume.pageSize = size →
      u.Finds f (s.held f) (Tree.Written size es n) → t.Gives u a u) :
    ((Store.view (Workspace.onTree t)).start st).1 = .ok a := by
  obtain ⟨m, hm, hs, hl, -⟩ := h.exists_hosts 0
  have hfinds := Transaction.finds_begun hs hl hf hes 0
  have hgives := hg ⟨m, .fresh 0⟩ hs.pageSize hfinds
  obtain ⟨hsame, -⟩ := ht ⟨st.engine.mounted, .none⟩ ⟨m, .none⟩ ⟨hm, rfl⟩
  rw [show t.start ⟨m, .none⟩ = _ from hgives.eq] at hsame
  rw [view_start hu]
  show ((t.start ⟨st.engine.mounted, .none⟩).1).mapError CollectionError.tree = .ok a
  rw [hsame]
  rfl

theorem treeEntries_eq (hu : st.engine.journal.broken = false) (hf : s.names f = some (treeName c))
    (hes : Tree.Written size es n (s.pages f)) : st.treeEntries c f = .ok es := by
  have hne : f ≠ FileId.none := FileId.ne_none_of_lt (h.serves.catalog.next hf)
  have hatt : ((Cluster.storage c).tree.attached f).component.isAttached := decide_eq_true hne
  refine h.view_tree hu (Tree.scan_agrees Mounted.Twin.serveAlike.toReadAlike _ _ _) hf hes fun u hps hu => ?_
  have hscan := Tree.scan_finds hatt h.ample hps hu .all none
  rwa [Tree.limited_none, Tree.KeyRange.pick_all] at hscan

theorem lastKey_eq (hu : st.engine.journal.broken = false) (hf : s.names f = some (treeName c))
    (hes : Tree.Written size es n (s.pages f)) :
    ((Store.view (Workspace.onTree ((Cluster.storage c).tree.attached f).lastKey)).start st).1 =
      .ok (es.getLast?.map Entry.key) := by
  have hne : f ≠ FileId.none := FileId.ne_none_of_lt (h.serves.catalog.next hf)
  have hatt : ((Cluster.storage c).tree.attached f).component.isAttached := decide_eq_true hne
  exact h.view_tree hu (Tree.lastKey_agrees Mounted.Twin.serveAlike.toReadAlike _) hf hes fun u hps hu =>
    Tree.lastKey_finds hatt h.ample hps hu

/-- To look at the last key at most loads pages. -/
theorem view_lastKey (hu : st.engine.journal.broken = false) (hf : s.names f = some (treeName c))
    (hes : Tree.Written size es n (s.pages f)) :
    ∃ st₁, (Store.view (Workspace.onTree ((Cluster.storage c).tree.attached f).lastKey)).Gives st
        (es.getLast?.map Entry.key) st₁ ∧
      st₁.Houses dir place size s n ∧ st.Beside Mounted.Twin st.engine.journal st₁ := by
  have hagrees : (Workspace.onTree ((Cluster.storage c).tree.attached f).lastKey).Agrees (Workspace.Beside
      (fun m n => m = n ∧ st.engine.mounted.Twin m) st.engine.journal) :=
    Workspace.onTree_agrees (Tree.lastKey_agrees (Mounted.Twin.readAlike_from _) _)
  have hkeeps : (Workspace.onTree ((Cluster.storage c).tree.attached f).lastKey).Keeps
      fun w => w.store.registry = st.registry := .onPart (fun _ _ h => h) _
  exact ⟨_, Prod.ext (h.lastKey_eq hu hf hes) rfl, h.view hagrees hkeeps, view_beside hagrees hkeeps⟩

/-- The ids of one tree. -/
theorem treeIds_eq (hu : st.engine.journal.broken = false) (hf : s.names f = some (treeName c))
    (hes : Tree.Written size es n (s.pages f)) : s.treeIds size n [c] = { i | ∃ e ∈ es, e.key.collection = i } := by
  have hsole {es' : List Entry} (hes' : Tree.Written size es' n (s.pages f)) : es' = es :=
    Except.ok.inj ((h.treeEntries_eq hu hf hes').symm.trans (h.treeEntries_eq hu hf hes))
  ext i
  constructor
  · rintro ⟨c', hc', f', es', e, hf', hes', he, rfl⟩
    obtain rfl := List.mem_singleton.mp hc'
    obtain rfl := h.serves.inj hf' hf
    exact ⟨e, hsole hes' ▸ he, rfl⟩
  · rintro ⟨e, he, rfl⟩
    exact ⟨c, List.mem_cons_self, f, es, e, hf, hes, he, rfl⟩

/-- The ids of all trees are those of any clusters among which are all that have a tree. -/
theorem entryIds_eq (hu : st.engine.journal.broken = false)
    (hall : ∀ c f, s.names f = some (treeName c) → c ∈ clusters) : st.entryIds = s.treeIds size n clusters := by
  ext i
  constructor
  · rintro ⟨c, f, es, e, hf, hes, he, rfl⟩
    have hname := h.serves.idOf?_eq_some.mp hf
    obtain ⟨es', hes'⟩ := h.exists_written hname
    obtain rfl : es = es' := Except.ok.inj (hes.symm.trans (h.treeEntries_eq hu hname hes'))
    exact ⟨c, hall c f hname, f, es, e, hname, hes', he, rfl⟩
  · rintro ⟨c, -, f, es, e, hname, hes, he, rfl⟩
    exact ⟨c, f, es, e, h.serves.idOf?_eq_some.mpr hname, h.treeEntries_eq hu hname hes, he, rfl⟩

end

end Houses

/-! ## Loading -/

/-- What loading some clusters, after each other, makes of a store. -/
structure Loads (idOf : String → Option FileId) (st : Store) (found : List ClusterId) (st' : Store) : Prop where
  engine : st'.engine = st.engine
  counter : st'.registry.counter = st.registry.counter
  attaches : st'.registry.Attaches idOf
  kept : ∀ c : ClusterId, (st.registry.clusters[c]?).isSome → (st'.registry.clusters[c]?).isSome
  found : ∀ c ∈ found, (st'.registry.clusters[c]?).isSome

namespace Loads

theorem nothing (h : st.registry.Attaches idOf) : Loads idOf st [] st := ⟨rfl, rfl, h, fun _ hc => hc, nofun⟩

theorem trans {found' : List ClusterId} {st'' : Store} (h : Loads idOf st found st')
    (h' : Loads idOf st' found' st'') : Loads idOf st (found ++ found') st'' :=
  ⟨h'.engine.trans h.engine, h'.counter.trans h.counter, h'.attaches, fun c hc => h'.kept c (h.kept c hc),
    fun c hc => (List.mem_append.mp hc).elim (fun hc => h'.kept c (h.found c hc)) (h'.found c)⟩

end Loads

section

variable (inj : ∀ {x y g}, idOf x = some g → idOf y = some g → x = y) (hid : st.volume.idOf? = idOf)
  (hr : st.registry.Attaches idOf)

include inj hid hr

/-- A cluster with a tree file is registered. -/
theorem loadCluster_loads (c : ClusterId) : (loadCluster c).Ends st
    (fun id st' => Loads idOf st (id.toList.map fun _ => c) st' ∧ (id = none → idOf (treeName c) = none))
    fun _ _ => True := by
  have hcheck : checkAccess.Keeps (· = st) := Workspace.checkAccess_keeps
  refine ((hcheck.ends rfl).mono (fun _ _ h => h) fun _ _ _ => trivial).bind ?_
  rintro _ _ rfl
  refine (Task.Gives.state _).bind_ends ?_
  split
  · next id hreg =>
    obtain ⟨f, hf, -⟩ := Option.bind_eq_some_iff.mp hreg
    refine Task.Gives.ends (.pure _ _) ⟨⟨rfl, rfl, hr, fun _ hc => hc, fun c' hc' => ?_⟩, nofun⟩
    obtain rfl : c' = c := by simpa using hc'
    rw [hf]
    rfl
  · dsimp only
    split
    · next hnone =>
      refine Task.Gives.ends (.pure _ _) ⟨.nothing hr, fun _ => ?_⟩
      rw [← hid]
      exact Option.map_eq_none_iff.mp hnone
    · exact .error rfl trivial
    · next tree sizes htree hsizes =>
      obtain ⟨f, hf, rfl⟩ := Option.map_eq_some_iff.mp htree
      refine (Task.Gives.change _ _).bind_ends (Task.Gives.ends (.pure _ _) ⟨?_, nofun⟩)
      refine ⟨rfl, rfl, hr.register (hid ▸ hf) inj, fun c' hc' => ?_, fun c' hc' => ?_⟩
      · refine (congrArg Option.isSome (lookup_insert _ c f c')).trans ?_
        split
        · rfl
        · exact hc'
      · obtain rfl : c' = c := by simpa using hc'
        exact (congrArg Option.isSome (lookup_insert _ c' f c')).trans (by rw [if_pos rfl]; rfl)

/-- The name of a tree file registers its cluster. -/
theorem loadNamed_loads (name : String) : (loadNamed name).Ends st
    (fun c st' => Loads idOf st c.toList st' ∧
      ∀ c', treeName c' = name → idOf (treeName c') ≠ none → c = some c') fun _ _ => True := by
  rw [loadNamed]
  split
  · next hnone =>
    refine Task.Gives.ends (.pure _ _) ⟨.nothing hr, fun c' hc' => ?_⟩
    rw [← hc', Cluster.ofTreeFileName?_treeName] at hnone
    cases hnone
  · next c hc =>
    refine (loadCluster_loads inj hid hr c).bind fun id st' hid => Task.Gives.ends (.pure _ _) ?_
    obtain ⟨hloads, hnone⟩ := hid
    constructor
    · cases id <;> exact hloads
    · rintro c' rfl hfile
      rw [Cluster.ofTreeFileName?_treeName] at hc
      obtain rfl := Option.some.inj hc
      cases id with
      | none => exact absurd (hnone rfl) hfile
      | some id => rfl

/-- Name after name, all clusters with a tree file are registered. -/
theorem loadNames_loads (names : List String) : (names.filterMapM loadNamed).Ends st
    (fun found st' => Loads idOf st found st' ∧ ∀ c, treeName c ∈ names → idOf (treeName c) ≠ none → c ∈ found)
    fun _ _ => True := by
  induction names generalizing st with
  | nil => exact Task.Gives.ends (.pure _ _) ⟨.nothing hr, nofun⟩
  | cons name names ih =>
    rw [List.filterMapM_cons]
    refine (loadNamed_loads inj hid hr name).bind fun c st₁ ⟨hloads, hfound⟩ => ?_
    have hid₁ : st₁.volume.idOf? = idOf := (congrArg (·.mounted.volume.idOf?) hloads.engine).trans hid
    have hrest := ih hid₁ hloads.attaches
    have hmem {found : List ClusterId} (hall : ∀ c, treeName c ∈ names → idOf (treeName c) ≠ none → c ∈ found)
        (c' : ClusterId) (hc' : treeName c' ∈ name :: names) (hfile : idOf (treeName c') ≠ none) :
        c' ∈ c.toList ++ found := by
      rcases List.mem_cons.mp hc' with he | hc'
      · rw [hfound c' he hfile]
        exact List.mem_cons_self
      · exact List.mem_append_right _ (hall c' hc' hfile)
    cases c with
    | none => exact hrest.mono (fun found st' h => ⟨hloads.trans h.1, hmem h.2⟩) fun _ _ h => h
    | some c =>
      exact hrest.bind fun found st' h => Task.Gives.ends (.pure _ _) ⟨hloads.trans h.1, hmem h.2⟩

end

/-! ## Counting on -/

/-- The count goes on from the greatest id of the trees of some clusters. -/
structure Advanced (dir : Path) (place : Location) (size : Nat) (s : Stock) (n : Nat) (st : Store)
    (cs : List ClusterId) (st' : Store) : Prop where
  houses : st'.Houses dir place size s n
  usable : st'.engine.journal.broken = false
  attaches : st'.registry.Attaches st'.volume.idOf?
  clusters : st'.registry.clusters = st.registry.clusters
  greatest : IsGreatest (insert st.registry.counter (s.treeIds size n cs)) st'.registry.counter

section

variable (h : st.Houses dir place size s n) (hu : st.engine.journal.broken = false)
  (hr : st.registry.Attaches st.volume.idOf?)

include h hu hr

theorem advanceCounter_advanced (hc : (st.registry.clusters[c]?).isSome) :
    (advanceCounter c).Ends st (fun _ st' => Advanced dir place size s n st [c] st') fun _ _ => True := by
  obtain ⟨f, hf⟩ := Option.isSome_iff_exists.mp hc
  obtain ⟨hid, x, hx, htree⟩ := hr c f hf
  have hname : s.names f = some (treeName c) := h.serves.idOf?_eq_some.mp hid
  obtain ⟨es, hes⟩ := h.exists_written hname
  have hgreatest := isGreatest_last hes.inOrder st.registry.counter
  rw [← h.treeIds_eq hu hname hes] at hgreatest
  obtain ⟨st₁, hview, hhouses, hbeside⟩ := h.view_lastKey hu hname hes
  have hidOf : st₁.volume.idOf? = st.volume.idOf? := funext fun x => (hbeside.mounted.unchanged.idOf? x).symm
  have hadvanced (r : CollectionId) (hr₁ : IsGreatest (insert st.registry.counter (s.treeIds size n [c])) r) :
      Advanced dir place size s n st [c] { st₁ with registry := { st₁.registry with counter := r } } := by
    refine ⟨hhouses.registry (f := fun reg => { reg with counter := r }) rfl, ?_, ?_, ?_, hr₁⟩
    · show st₁.engine.journal.broken = false
      rw [hbeside.journal.2]
      exact hu
    · show st₁.registry.Attaches st₁.volume.idOf?
      rw [hidOf, ← hbeside.registry]
      exact hr
    · show st₁.registry.clusters = st.registry.clusters
      rw [← hbeside.registry]
  refine (Task.Gives.state st).bind_ends ?_
  rw [hx]
  dsimp only
  rw [htree]
  refine hview.bind_ends ?_
  cases hkey : es.getLast? with
  | none =>
    rw [hkey] at hgreatest
    have hdone := hadvanced _ hgreatest
    rw [Option.map_none, Option.getD_none, hbeside.registry] at hdone
    exact Task.Gives.ends (.pure _ _) hdone
  | some last =>
    rw [hkey] at hgreatest
    have hdone := hadvanced _ hgreatest
    rw [Option.map_some, Option.getD_some, hbeside.registry] at hdone
    exact Task.Gives.ends (.change _ _) hdone

end

theorem Advanced.trans {cs : List ClusterId} {st'' : Store} (h : Advanced dir place size s n st [c] st')
    (h' : Advanced dir place size s n st' cs st'') : Advanced dir place size s n st (c :: cs) st'' := by
  refine ⟨h'.houses, h'.usable, h'.attaches, h'.clusters.trans h.clusters, ?_⟩
  rw [Stock.treeIds_cons]
  exact isGreatest_insert_union h.greatest h'.greatest

/-- Cluster after cluster, the count goes on from the greatest id. -/
theorem advanceAll_advanced {cs : List ClusterId} (h : st.Houses dir place size s n)
    (hu : st.engine.journal.broken = false) (hr : st.registry.Attaches st.volume.idOf?)
    (hcs : ∀ c ∈ cs, (st.registry.clusters[c]?).isSome) :
    (cs.forM advanceCounter).Ends st (fun _ st' => Advanced dir place size s n st cs st') fun _ _ => True := by
  induction cs generalizing st with
  | nil =>
    refine Task.Gives.ends (.pure () st) ⟨h, hu, hr, rfl, ?_⟩
    have hnone : s.treeIds size n [] = ∅ := by
      ext i
      simp [Stock.treeIds]
    rw [hnone]
    exact ⟨.inl rfl, fun b hb => hb.elim (fun hb => hb ▸ Int64.le_refl b) False.elim⟩
  | cons c cs ih =>
    refine (advanceCounter_advanced h hu hr (hcs c List.mem_cons_self)).bind fun _ st₁ h₁ => ?_
    refine (ih h₁.houses h₁.usable h₁.attaches fun c' hc' => ?_).mono (fun _ _ h₂ => h₁.trans h₂) fun _ _ h => h
    rw [h₁.clusters]
    exact hcs c' (List.mem_cons_of_mem _ hc')

/-- Where nothing is registered yet, the count goes on from the greatest id of all trees. -/
theorem loadExisting_greatest (h : st.Houses dir place size s n) (hu : st.engine.journal.broken = false)
    (hempty : st.registry = .empty) : loadExisting.Ends st
      (fun _ st' => st'.Houses dir place size s n ∧ st'.engine.journal.broken = false ∧
        IsGreatest (insert 0 st'.entryIds) st'.registry.counter) fun _ _ => True := by
  have hcheck : checkAccess.Keeps (· = st) := Workspace.checkAccess_keeps
  have hattaches : st.registry.Attaches st.volume.idOf? := hempty ▸ .empty _
  have inj {x y : String} {g : FileId} (hx : st.volume.idOf? x = some g) (hy : st.volume.idOf? y = some g) : x = y :=
    Option.some.inj ((h.serves.idOf?_eq_some.mp hx).symm.trans (h.serves.idOf?_eq_some.mp hy))
  have hnames := (loadNames_loads inj rfl hattaches st.volume.catalog.names.values)
  refine ((hcheck.ends rfl).mono (fun _ _ h => h) fun _ _ _ => trivial).bind ?_
  rintro _ st₀ rfl
  refine (Task.Gives.state st₀).bind_ends ?_
  rcases hr : (st₀.volume.catalog.names.values.filterMapM loadNamed).start st₀ with ⟨cause | found, st₁⟩
  · exact .error_bind hr trivial
  have hg : (st₀.volume.catalog.names.values.filterMapM loadNamed).Gives st₀ found st₁ := hr
  obtain ⟨hloads, hfound⟩ := hnames.of_gives hg
  have h₁ := (loadNames_keeps (fun c _ h => h.loadCluster c) _).gives hg h
  have hu₁ : st₁.engine.journal.broken = false := hloads.engine ▸ hu
  have hidOf : st₁.volume.idOf? = st₀.volume.idOf? := congrArg (·.mounted.volume.idOf?) hloads.engine
  refine Task.Gives.bind_ends hg ?_
  have husable : (liftM Engine.checkUsable : Task Store CollectionError Unit).Gives st₁ () st₁ := checkUsable_gives hu₁
  refine husable.bind_ends ?_
  refine (advanceAll_advanced h₁ hu₁ (hidOf ▸ hloads.attaches) fun c hc => ?_).bind fun _ st₂ h₂ => ?_
  · exact hloads.found c (List.mem_mergeSort.mp hc)
  refine Task.Gives.ends (.pure _ _) ⟨h₂.houses, h₂.usable, ?_⟩
  -- every cluster with a tree was loaded, so that no id is left out
  have hids : st₂.entryIds = s.treeIds size n (found.mergeSort fun a b => decide (a ≤ b)) := by
    refine h₂.houses.entryIds_eq h₂.usable fun c f hname => List.mem_mergeSort.mpr ?_
    refine hfound c (h.mem_values.mpr ⟨f, hname⟩) ?_
    have hsome : st₀.volume.idOf? (treeName c) = some f := h.serves.idOf?_eq_some.mpr hname
    rw [hsome]
    exact Option.some_ne_none f
  have hzero : st₁.registry.counter = 0 := by
    rw [hloads.counter, hempty]
    rfl
  rw [hids]
  exact hzero ▸ h₂.greatest

end Store

open Workspace (nextCount)

namespace Directory

variable {dir : Path} {size n : Nat} {disk disk' : Disk} {settings : Settings} {st : Store} {report : RecoveryReport}

/-- When a directory that was used in any way is opened, its trees can be read, and the count goes on from
the greatest id under which one of them holds an entry, or from 0. Until the count has passed the largest id,
whatever is done, all ids that are handed out are above those. -/
theorem Lives.ids_exceed_entries (h : Lives dir size (.left disk) n) (hdir : dir.Roomy) (hn : n < 2 ^ 61)
    (pages : settings.pageSize = size) (opening : Store.open settings dir disk = (.ok (st, report), disk')) :
    (∀ {cluster f}, st.volume.idOf? (treeName cluster) = some f → ∃ es, st.treeEntries cluster f = .ok es) ∧
    IsGreatest (insert 0 st.entryIds) st.registry.counter ∧
    ∀ {ids st'}, st.Issues ids st' → ∃ ms : List ℕ, ids = ms.map (nextCount^[·] st.registry.counter) ∧
      ms.Pairwise (· < ·) ∧ ∀ j ∈ ms, 0 < j ∧ (st.registry.counter.toInt + j < 2 ^ 63 →
        ∀ i ∈ st.entryIds, i < nextCount^[j] st.registry.counter) := by
  subst pages
  obtain ⟨valid, st₀, _, _, hmount, hload⟩ := Collection.open_cases opening
  have hample := Tree.Ample.ofSettings valid
  obtain ⟨place, s, hrests, hsealed, hf⟩ := h.housed hdir hn hample (Settings.poolPages_pos valid) hmount
  have hempty : st₀.registry = .empty := Collection.mount_registry hmount
  have houses := Store.Houses.mounted hmount hrests hsealed hample hf
  obtain ⟨hhouses, hu, hgreatest⟩ :=
    (Store.loadExisting_greatest houses (Store.mount_usable hmount) hempty).of_gives hload
  have hnonneg : 0 ≤ st.registry.counter := Collection.nonneg_open opening
  refine ⟨fun {cluster f} hfile => ?_, hgreatest, fun {ids st'} issues => ?_⟩
  · have hname := hhouses.serves.idOf?_eq_some.mp hfile
    obtain ⟨es, hes⟩ := hhouses.exists_written hname
    exact ⟨es, hhouses.treeEntries_eq hu hname hes⟩
  · obtain ⟨ms, hids, hpos, hms⟩ := issues.handsOut.pairwise hnonneg
    refine ⟨ms, hids, hms.imp And.left, fun j hj => ⟨hpos j hj, fun hlt i hi => ?_⟩⟩
    have hle : i ≤ st.registry.counter := hgreatest.2 (.inr hi)
    have hj := hpos j hj
    refine Int64.lt_of_le_of_lt hle ?_
    rw [Int64.lt_iff_toInt_lt, Workspace.toInt_iterate_of_lt hnonneg hlt]
    omega

/-- A store is closed whose tree has entries under the ids 1 and 2. Opened again it counts on from 2, and the
next collection gets the id 3. -/
theorem Lives.ids_exceed_entries_after_close : ∃ (settings : Settings) (disk disk' : Disk) (st st' : Store)
    (report : RecoveryReport) (f : FileId), Lives ⟨["d"]⟩ 1024 (.left disk) 4 ∧ settings.pageSize = 1024 ∧
      Store.open settings ⟨["d"]⟩ disk = (.ok (st, report), disk') ∧ st.volume.idOf? (treeName 1) = some f ∧
      st.treeEntries 1 f = .ok [⟨.of 1 ⟨1, 1⟩, 10⟩, ⟨.of 2 ⟨1, 1⟩, 20⟩] ∧ 2 ∈ st.entryIds ∧
      st.registry.counter = 2 ∧ IsGreatest (insert 0 st.entryIds) st.registry.counter ∧ st.Issues [3] st' ∧
      ∃ ms : List ℕ, [3] = ms.map (nextCount^[·] st.registry.counter) ∧ ms.Pairwise (· < ·) ∧
        ∀ j ∈ ms, 0 < j ∧ (st.registry.counter.toInt + j < 2 ^ 63 →
          ∀ i ∈ st.entryIds, i < nextCount^[j] st.registry.counter) := by
  have hdir := Path.roomy_d
  have valid : (⟨"d", 1024, 1, false⟩ : Settings).validate = .ok () := rfl
  obtain ⟨x, st₀, hcluster, h⟩ := Store.exists_hasPair 1 ⟨1, 1⟩ ⟨1, 1⟩ 10 20
  obtain ⟨place, s, ns, hr₀, hall, hname, hsizes, hes, hns, hlen⟩ := h.stocked hdir
  rw [hcluster] at hname hsizes
  have left : Lives ⟨["d"]⟩ 1024 (.left (Store.close.start st₀).2.disk) 4 :=
    .closed (.of_built h.built hdir (by decide)) .none
  obtain ⟨st, report, opening, hr⟩ := hr₀.reopens hdir valid rfl
  rw [← hr₀.houses.disk_close] at opening
  obtain ⟨-, greatest, above⟩ := left.ids_exceed_entries hdir (by decide) rfl opening
  -- the tree is the only one, so that its ids are all there are
  have hids (i : CollectionId) : i ∈ st.entryIds ↔ 1 = i ∨ 2 = i := by
    have hone : ∀ c f, s.names f = some (treeName c) → c ∈ [(1 : ClusterId)] :=
      fun c f hf => List.mem_singleton.mpr ((hall hf).trans hcluster)
    rw [hr.houses.entryIds_eq hr.usable hone, hr.houses.treeIds_eq hr.usable hname hes]
    exact Shelf.exists_mem_pair
  have htwo : 2 ∈ st.entryIds := (hids 2).mpr (.inr rfl)
  have hcounter : st.registry.counter = 2 := by
    refine Int64.le_antisymm ?_ (greatest.2 (.inr htwo))
    rcases greatest.1 with hzero | hid
    · rw [hzero]
      decide
    · rcases (hids _).mp hid with hid | hid <;> rw [← hid] <;> decide
  have hfirst : Workspace.FirstUnused [⟨x.first.key ⟨1, 1⟩, 10⟩, ⟨x.second.key ⟨1, 1⟩, 20⟩] st.registry.counter 0 := by
    rw [hcounter]
    exact ⟨by decide, fun en hen hid => absurd (Shelf.exists_mem_pair.mp ⟨en, hen, hid⟩) (by decide), nofun⟩
  obtain ⟨op, e, started⟩ := Engine.exists_start hr.usable
  obtain ⟨a, w, hmade, ha⟩ := hr.createCollection_gives started hname hes hsizes hns
    (Nat.lt_of_le_of_lt hlen (by decide)) (by decide) hfirst
  rw [hcounter] at ha
  have issues : st.Issues [3] ((Store.atomically (Workspace.createCollection 1)).start st).2 := by
    have hissues := Workspace.Issues.nothing.create hmade
    rw [ha] at hissues
    exact .operation .nothing started (Workspace.createCollection 1) (by rw [hmade.eq]; exact hissues)
  have hentries := hr.houses.treeEntries_eq hr.usable hname hes
  have hfile := hr.houses.serves.idOf?_eq_some.mpr hname
  exact ⟨_, _, _, st, _, report, x.treeFile, left, rfl, opening, hfile, hentries, htwo, hcounter, greatest, issues,
    above issues⟩

end Directory

end RefStore
