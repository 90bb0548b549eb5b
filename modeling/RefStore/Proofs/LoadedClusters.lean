import RefStore.Proofs.ClusterNames
import RefStore.Proofs.HousedStores
import RefStore.Proofs.RegisteredFiles

/-!
# Loading the clusters of a store

A store that is opened goes through the names of its files and registers each cluster whose tree is among
them. If every tree has its size map beside it, nothing can fail, and in the end the registry matches
the names. Main statements: `Store.loadNames_gives`, `Houses.loadExisting_gives`, `Registers.reopens`.
-/

namespace RefStore

theorem values_eq_map_toList {α β : Type} [Ord α] (m : Std.TreeMap α β) : m.values = m.toList.map Prod.snd := by
  show Std.DTreeMap.Internal.Impl.values m.inner.inner =
    (Std.DTreeMap.Internal.Impl.Const.toList m.inner.inner).map Prod.snd
  rw [Std.DTreeMap.Internal.Impl.values_eq_map_snd, Std.DTreeMap.Internal.Impl.Const.toList_eq_toListModel_map,
    List.map_map]
  rfl

/-! ## Names of the files of clusters -/

namespace Cluster

variable {names : FileId → Option String} {clusters clusters' : List ClusterId} {c : ClusterId} {f g : FileId}
  {x : String}

/-- The storage of a cluster in two files. -/
def inFiles (c : ClusterId) (f g : FileId) : ClusterStorage :=
  ⟨c, (storage c).tree.attached f, (storage c).sizes.attached g⟩

/-- Files with different names, which are those of clusters. Each cluster has both files or none. -/
structure Paired (names : FileId → Option String) : Prop where
  apart : ∀ {f g x}, names f = some x → names g = some x → f = g
  kinds : ∀ {f x}, names f = some x → ∃ c, x = treeName c ∨ x = sizesName c
  sizes : ∀ {c f}, names f = some (treeName c) → ∃ g, names g = some (sizesName c)
  tree : ∀ {c g}, names g = some (sizesName c) → ∃ f, names f = some (treeName c)

/-- The names of the files of some clusters only. -/
def within (names : FileId → Option String) (clusters : List ClusterId) (f : FileId) : Option String :=
  (names f).filter fun x => clusters.any fun c => decide (x = treeName c ∨ x = sizesName c)

theorem within_eq_some : within names clusters f = some x ↔
    names f = some x ∧ ∃ c ∈ clusters, x = treeName c ∨ x = sizesName c := by
  rw [within, Option.filter_eq_some_iff]
  simp

theorem within_treeName :
    within names clusters f = some (treeName c) ↔ names f = some (treeName c) ∧ c ∈ clusters := by
  rw [within_eq_some]
  refine and_congr_right fun _ => ⟨?_, fun hc => ⟨c, hc, .inl rfl⟩⟩
  rintro ⟨c', hc', he | he⟩
  · rwa [treeName_injective he]
  · exact absurd he (treeName_ne_sizesName _ _)

theorem within_nil : within names [] = fun _ => none := by
  funext f
  cases h : names f <;> simp [within, h]

theorem within_congr (h : ∀ c, c ∈ clusters ↔ c ∈ clusters') : within names clusters = within names clusters' := by
  refine funext fun f => Option.ext fun x => ?_
  simp only [within_eq_some, h]

/-- The files of all clusters are all files. -/
theorem Paired.within_eq (hn : Paired names) (h : ∀ {c f}, names f = some (treeName c) → c ∈ clusters) :
    within names clusters = names := by
  refine funext fun f => Option.ext fun x => within_eq_some.trans ⟨And.left, fun hx => ⟨hx, ?_⟩⟩
  obtain ⟨c, rfl | rfl⟩ := hn.kinds hx
  · exact ⟨c, h hx, .inl rfl⟩
  · obtain ⟨g, hg⟩ := hn.tree hx
    exact ⟨c, h hg, .inr rfl⟩

/-- With a cluster come the names of its two files. -/
theorem Paired.within_cons (hn : Paired names) (hf : names f = some (treeName c)) (hg : names g = some (sizesName c)) :
    within names (c :: clusters) =
      Function.update (Function.update (within names clusters) f (some (treeName c))) g (some (sizesName c)) := by
  refine funext fun k => Option.ext fun x => ?_
  rw [within_eq_some, Function.update_apply, Function.update_apply]
  split
  · next he =>
    subst he
    rw [hg]
    exact ⟨And.left, fun h => ⟨h, c, List.mem_cons_self, .inr (Option.some.inj h).symm⟩⟩
  · next hkg =>
    split
    · next he =>
      subst he
      rw [hf]
      exact ⟨And.left, fun h => ⟨h, c, List.mem_cons_self, .inl (Option.some.inj h).symm⟩⟩
    · next hkf =>
      rw [within_eq_some]
      refine and_congr_right fun hx => ⟨?_, fun ⟨c', hc', hx'⟩ => ⟨c', List.mem_cons_of_mem _ hc', hx'⟩⟩
      rintro ⟨c', hc', hx'⟩
      rcases List.mem_cons.mp hc' with rfl | hc'
      · rcases hx' with rfl | rfl
        · exact absurd (hn.apart hx hf) hkf
        · exact absurd (hn.apart hx hg) hkg
      · exact ⟨c', hc', hx'⟩

end Cluster

namespace Registry.Matches

variable {r : Registry} {names : FileId → Option String} {n size : Nat} {s : Stock}

/-- Where a registry matches the files of clusters these are paired. -/
theorem cluster_paired (h : r.Matches names) (apart : ∀ {f g x}, names f = some x → names g = some x → f = g)
    (kinds : ∀ {f x}, names f = some x → ∃ c, x = Cluster.treeName c ∨ x = Cluster.sizesName c) :
    Cluster.Paired names where
  apart := apart
  kinds := kinds
  sizes hf := by
    obtain ⟨st, -, -, -, hg⟩ := h.storage hf
    exact ⟨_, hg⟩
  tree hg := by
    obtain ⟨f, hf⟩ := h.paired hg
    exact ⟨f, h.clusters.mp hf⟩

end Registry.Matches

/-! ## Loading by name -/

namespace Store

open Cluster (Paired within treeName sizesName)

variable {names : FileId → Option String} {clusters : List ClusterId} {c : ClusterId} {f g : FileId}
  {st : Store} {e : Engine} {r : Registry}

/-- The files of a cluster that is not registered are found and registered. -/
theorem loadCluster_gives (hfree : st.registry.prohibited = false) (hno : st.registry.registeredId? c = none)
    (hf : st.volume.idOf? (treeName c) = some f) (hg : st.volume.idOf? (sizesName c) = some g) :
    (loadCluster c).Gives st (some st.registry.storages.length)
      { st with registry := st.registry.register (Cluster.inFiles c f g) } := by
  have htree : (Cluster.storage c).tree.load? st.volume = some ((Cluster.storage c).tree.attached f) := by
    rw [Tree.load?, show st.volume.idOf? (Cluster.storage c).tree.fileName = some f from hf, Option.map_some]
  have hsizes : (Cluster.storage c).sizes.load? st.volume = some ((Cluster.storage c).sizes.attached g) := by
    rw [SizeMap.load?, show st.volume.idOf? (Cluster.storage c).sizes.fileName = some g from hg, Option.map_some]
  refine (checkAccess_of_allowed hfree).bind ((Task.Gives.state st).bind ?_)
  rw [hno]
  dsimp only
  rw [htree, hsizes]
  exact (Task.Gives.change _ st).bind (.pure _ _)

/-- Load the cluster whose tree goes by a file name, if there is one. -/
def loadNamed (name : String) : Task Store CollectionError (Option ClusterId) := do
  match Cluster.ofTreeFileName? name with
  | none => return none
  | some cluster => return (← loadCluster cluster).map fun _ => cluster

theorem loadNames_keeps {P : Store → Prop} (load : ∀ c, (loadCluster c).Keeps P) (l : List String) :
    (l.filterMapM loadNamed).Keeps P := by
  refine .filterMapM fun name => ?_
  rw [loadNamed]
  split
  · exact .pure _
  · exact .bind (load _) fun _ => .pure _

theorem loadNamed_treeName (c : ClusterId) :
    loadNamed (treeName c) = do return (← loadCluster c).map fun _ => c := by
  rw [loadNamed, Cluster.ofTreeFileName?_treeName]

theorem loadNamed_sizesName (c : ClusterId) : loadNamed (sizesName c) = pure none := by
  rw [loadNamed, Cluster.ofTreeFileName?_sizesName]

/-- A cluster with a tree is registered under the name of the tree. -/
theorem loadNamed_registers (hn : Paired names)
    (hid : ∀ {f x}, names f = some x → e.mounted.volume.idOf? x = some f) (hf : names f = some (treeName c))
    (hc : c ∉ clusters) (hfree : r.prohibited = false) (hr : r.Matches (within names clusters)) :
    ∃ r', (loadNamed (treeName c)).Gives ⟨e, r⟩ (some c) ⟨e, r'⟩ ∧ r'.prohibited = false ∧
      r'.Matches (within names (c :: clusters)) := by
  obtain ⟨g, hg⟩ := hn.sizes hf
  have hno {k : FileId} (hk : names k = some (treeName c) ∨ names k = some (sizesName c)) :
      within names clusters k = none := by
    rw [Option.eq_none_iff_forall_ne_some]
    intro y hy
    obtain ⟨hy, c', hc', rfl | rfl⟩ := Cluster.within_eq_some.mp hy <;> rcases hk with hk | hk <;>
      rw [hk, Option.some.injEq] at hy
    · exact hc (Cluster.treeName_injective hy ▸ hc')
    · exact Cluster.treeName_ne_sizesName _ _ hy.symm
    · exact Cluster.treeName_ne_sizesName _ _ hy
    · exact hc (Cluster.sizesName_injective hy ▸ hc')
  have hunregistered : r.registeredId? c = none := by
    rw [Registry.registeredId?, Option.bind_eq_none_iff]
    intro k hk
    exact absurd (Cluster.within_treeName.mp (hr.clusters.mp hk)).2 hc
  have hne : f ≠ g := by
    rintro rfl
    rw [hf] at hg
    exact Cluster.treeName_ne_sizesName _ _ (Option.some.inj hg)
  have hload : (loadCluster c).Gives ⟨e, r⟩ _ ⟨e, r.register (Cluster.inFiles c f g)⟩ :=
    loadCluster_gives hfree hunregistered (hid hf) (hid hg)
  refine ⟨r.register (Cluster.inFiles c f g), loadNamed_treeName c ▸ hload.bind (.pure _ _), hfree, ?_⟩
  rw [hn.within_cons hf hg]
  exact hr.register hunregistered hne (hno (.inl hf)) (hno (.inr hg))

/-- Name after name, the clusters with a tree are registered. -/
theorem loadNames_gives (hn : Paired names)
    (hid : ∀ {f x}, names f = some x → e.mounted.volume.idOf? x = some f) {l : List String}
    (hl : ∀ x ∈ l, ∃ f, names f = some x) (hnodup : l.Nodup) (hnew : ∀ c, treeName c ∈ l → c ∉ clusters)
    (hfree : r.prohibited = false) (hr : r.Matches (within names clusters)) :
    ∃ found r', (l.filterMapM loadNamed).Gives ⟨e, r⟩ found ⟨e, r'⟩ ∧ r'.prohibited = false ∧
      r'.Matches (within names (found ++ clusters)) ∧ ∀ c, c ∈ found ↔ treeName c ∈ l := by
  induction l generalizing clusters r with
  | nil => exact ⟨[], r, .pure _ _, hfree, hr, by simp⟩
  | cons x l ih =>
    obtain ⟨hx, hrest⟩ := List.nodup_cons.mp hnodup
    have hl' : ∀ y ∈ l, ∃ f, names f = some y := fun y hy => hl y (List.mem_cons_of_mem _ hy)
    obtain ⟨f, hf⟩ := hl x List.mem_cons_self
    obtain ⟨c, rfl | rfl⟩ := hn.kinds hf
    · obtain ⟨r₁, hone, hfree₁, hr₁⟩ := loadNamed_registers hn hid hf (hnew c List.mem_cons_self) hfree hr
      have hnew' (c' : ClusterId) (hc' : treeName c' ∈ l) : c' ∉ c :: clusters := by
        intro hmem
        rcases List.mem_cons.mp hmem with rfl | hmem
        · exact hx hc'
        · exact hnew c' (List.mem_cons_of_mem _ hc') hmem
      obtain ⟨found, r', hloaded, hfree', hend, hfound⟩ := ih hl' hrest hnew' hfree₁ hr₁
      refine ⟨c :: found, r', ?_, hfree', ?_, fun c' => ?_⟩
      · rw [List.filterMapM_cons]
        exact hone.bind (hloaded.bind (.pure _ _))
      · have hsame (c' : ClusterId) : c' ∈ found ++ c :: clusters ↔ c' ∈ c :: found ++ clusters := by
          simp [or_left_comm]
        rwa [← Cluster.within_congr hsame]
      · rw [List.mem_cons, List.mem_cons, hfound, Cluster.treeName_injective.eq_iff]
    · obtain ⟨found, r', hloaded, hfree', hend, hfound⟩ := ih hl' hrest
        (fun c' hc' => hnew c' (List.mem_cons_of_mem _ hc')) hfree hr
      refine ⟨found, r', ?_, hfree', hend, fun c' => ?_⟩
      · rw [List.filterMapM_cons, loadNamed_sizesName]
        exact (Task.Gives.pure _ _).bind hloaded
      · rw [hfound, List.mem_cons]
        exact (or_iff_right (Cluster.treeName_ne_sizesName _ _)).symm

/-! ## Opening -/

variable {dir : Path} {place : Location} {size n : Nat} {s : Stock}

namespace Houses

section

variable (h : st.Houses dir place size s n)

include h

/-- All files are those of clusters. -/
theorem kinds {x : String} (hx : s.names f = some x) : ∃ c, x = treeName c ∨ x = sizesName c := by
  obtain ⟨c, ⟨hname, -⟩ | ⟨hname, -⟩⟩ := h.furnished hx
  · exact ⟨c, .inl hname⟩
  · exact ⟨c, .inr hname⟩

/-- The names of the catalog are those of the files, each once. -/
theorem mem_values {x : String} : x ∈ st.volume.catalog.names.values ↔ ∃ f, s.names f = some x := by
  have hname := h.serves.catalog.name
  rw [values_eq_map_toList]
  simp [Std.TreeMap.mem_toList_iff_getElem?_eq_some, ← hname, volume]

theorem nodup_values : st.volume.catalog.names.values.Nodup := by
  have hserves := h.serves
  have hlisted {e : FileId × String} (he : e ∈ st.volume.catalog.names.toList) : s.names e.1 = some e.2 :=
    (hserves.catalog.name _).symm.trans (Std.TreeMap.mem_toList_iff_getElem?_eq_some.mp he)
  rw [values_eq_map_toList, List.Nodup, List.pairwise_map]
  refine st.volume.catalog.names.distinct_keys_toList.imp_of_mem fun {e e'} he he' hne hx => hne ?_
  have hsame := hserves.inj (hlisted he) (hx ▸ hlisted he')
  simp [hsame]

/-- The tree of a registered file has a greatest key, or none. -/
theorem lastKey_gives {b : ClusterStorage} (hb : b ∈ st.registry.storages) {x : String}
    (hx : s.names b.treeFile = some x) : ∃ key t', b.tree.lastKey.Gives ⟨st.engine.mounted, .none⟩ key t' := by
  obtain ⟨m, hm, -, -, hosts⟩ := h.exists_hosts 0
  obtain ⟨o, ho⟩ := hosts.tree hb
  cases o with
  | none => exact absurd (Transaction.sees_fresh.mpr hx) (ho x)
  | some es =>
    obtain ⟨_, _, _, hshows, hintact, -⟩ := Tree.exists_shown h.ample hosts.ready.pageSize ho.2
    have hgives := hshows.lastKey (h.housed b hb).attached.1 hintact
    obtain ⟨hsame, -⟩ := Tree.lastKey_agrees Mounted.Twin.serveAlike.toReadAlike b.tree
      ⟨st.engine.mounted, .none⟩ ⟨m, .none⟩ ⟨hm, rfl⟩
    rcases hr : b.tree.lastKey.start ⟨st.engine.mounted, .none⟩ with ⟨result, t'⟩
    rw [hr, show b.tree.lastKey.start ⟨m, .none⟩ = _ from hgives.eq] at hsame
    exact ⟨_, t', hr.trans (congrArg (·, t') hsame)⟩

end

end Houses

/-- A store that houses the files of clusters, has all of them registered, and can be used. -/
structure Registers (dir : Path) (place : Location) (size : Nat) (s : Stock) (n : Nat) (st : Store) : Prop where
  houses : st.Houses dir place size s n
  usable : st.engine.journal.broken = false
  allowed : st.registry.prohibited = false
  matched : st.registry.Matches s.names

namespace Registers

/-- A registered cluster has its storage in files with its names. -/
theorem storage_gives (h : Registers dir place size s n st) {b : ClusterStorage}
    (hb : st.registry.storage? c = some b) :
    b ∈ st.registry.storages ∧ s.names b.treeFile = some (treeName c) ∧ s.names b.sizesFile = some (sizesName c) := by
  obtain ⟨id, hid, hb⟩ := Option.bind_eq_some_iff.mp hb
  obtain ⟨k, hk, hid⟩ := Option.bind_eq_some_iff.mp hid
  have hname := h.matched.clusters.mp hk
  obtain ⟨b', hb', -, rfl, hsizes⟩ := h.matched.storage hname
  rw [Registry.storageOf?, hid, Option.bind_some, hb] at hb'
  obtain rfl := Option.some.inj hb'
  exact ⟨List.mem_of_getElem? hb, hname, hsizes⟩

/-- To count on from the ids of a cluster cannot fail. -/
theorem advanceCounter_gives (h : Registers dir place size s n st) (c : ClusterId) :
    ∃ st', (advanceCounter c).Gives st () st' ∧ Registers dir place size s n st' := by
  have hdone {st' : Store} (hg : (advanceCounter c).Gives st () st') (hj : st'.engine.journal = st.engine.journal)
      (hr : st.registry.Extends st'.registry) : ∃ st', (advanceCounter c).Gives st () st' ∧
        Registers dir place size s n st' :=
    ⟨st', hg, (Houses.advanceCounter_keeps c).gives hg h.houses, hj ▸ h.usable,
      hr.alike.prohibited.trans h.allowed, h.matched.extend hr⟩
  cases hst : st.registry.storage? c with
  | none =>
    refine hdone ((Task.Gives.state st).bind ?_) rfl (.refl _)
    rw [hst]
    exact .pure () st
  | some b =>
    obtain ⟨hb, hname, -⟩ := h.storage_gives hst
    obtain ⟨key, t', hkey⟩ := h.houses.lastKey_gives hb hname
    have hview : (Store.view (Workspace.onTree b.tree.lastKey)).Gives st key
        ⟨⟨t'.mounted, st.engine.journal⟩, st.registry⟩ := by
      have hlast : (Workspace.onTree b.tree.lastKey).Gives ⟨st, .none, []⟩ key (Part.put t' _) :=
        (hkey.mapError CollectionError.tree).onPart
      rw [Task.Gives, view_start h.usable, hlast.eq]
      rfl
    cases key with
    | none =>
      have hsame : (advanceCounter c).Gives st () ⟨⟨t'.mounted, st.engine.journal⟩, st.registry⟩ := by
        refine (Task.Gives.state st).bind ?_
        rw [hst]
        exact hview.bind (.pure () _)
      exact hdone hsame rfl (.refl _)
    | some key =>
      have hraised : (advanceCounter c).Gives st () ⟨⟨t'.mounted, st.engine.journal⟩,
          { st.registry with counter := max st.registry.counter key.collection }⟩ := by
        refine (Task.Gives.state st).bind ?_
        rw [hst]
        exact hview.bind (.change _ _)
      exact hdone hraised rfl ⟨⟨rfl, fun _ => rfl, fun _ => rfl⟩, List.prefix_rfl⟩

theorem advanceAll_gives (h : Registers dir place size s n st) (clusters : List ClusterId) :
    ∃ st', (clusters.forM advanceCounter).Gives st () st' ∧ Registers dir place size s n st' := by
  induction clusters generalizing st with
  | nil => exact ⟨st, .pure () st, h⟩
  | cons c clusters ih =>
    obtain ⟨st₁, hone, h₁⟩ := h.advanceCounter_gives c
    obtain ⟨st₂, hrest, h₂⟩ := ih h₁
    exact ⟨st₂, hone.bind hrest, h₂⟩

end Registers

/-- Where nothing is registered yet, loading the clusters registers all that have files. -/
theorem Houses.loadExisting_gives (h : st.Houses dir place size s n) (hu : st.engine.journal.broken = false)
    (hempty : st.registry = .empty) (hn : Paired s.names) :
    ∃ loaded st', loadExisting.Gives st loaded st' ∧ Registers dir place size s n st' := by
  have hfree : st.registry.prohibited = false := by
    rw [hempty]
    rfl
  have hstart : st.registry.Matches (within s.names []) := by
    rw [Cluster.within_nil, hempty]
    exact Registry.Matches.empty
  obtain ⟨found, r', hloaded, hallowed, hmatched, hfound⟩ := loadNames_gives hn
    (fun hx => h.serves.idOf?_eq_some.mpr hx) (fun x hx => h.mem_values.mp hx) h.nodup_values
    (fun _ _ => List.not_mem_nil) hfree hstart
  have hall : within s.names (found ++ []) = s.names :=
    hn.within_eq fun {c f} hf => List.mem_append_left _ ((hfound c).mpr (h.mem_values.mpr ⟨f, hf⟩))
  rw [hall] at hmatched
  have hkept := (loadNames_keeps (fun c _ h => h.loadCluster c) _).gives hloaded h
  obtain ⟨st', hcount, hregisters⟩ := Registers.advanceAll_gives ⟨hkept, hu, hallowed, hmatched⟩
    (found.mergeSort fun a b => decide (a ≤ b))
  refine ⟨found.mergeSort fun a b => decide (a ≤ b), st', ?_, hregisters⟩
  refine (checkAccess_of_allowed hfree).bind ((Task.Gives.state st).bind (Task.Gives.bind hloaded ?_))
  have husable : (liftM Engine.checkUsable : Task Store CollectionError Unit).Gives ⟨st.engine, r'⟩ ()
      ⟨st.engine, r'⟩ := checkUsable_gives hu
  exact husable.bind (hcount.bind (.pure _ _))

/-- An engine that has just been mounted can be used. -/
theorem mount_usable {pool : Nat} {syncs : Bool} {disk disk' : Disk} {report : RecoveryReport}
    (h : mount dir size pool syncs disk = (.ok (st, report), disk')) : st.engine.journal.broken = false := by
  rw [mount] at h
  split at h
  · cases h
  · split at h
    · cases h
    · next hj =>
      cases h
      obtain ⟨_, _, hstate, hj⟩ := Task.bind_gives hj
      obtain ⟨_, _, hlog, hj⟩ := Task.bind_gives hj
      obtain ⟨_, _, hrun, hj⟩ := Task.bind_gives hj
      obtain ⟨he, -⟩ := Task.gives_pure hj
      obtain ⟨rfl, -⟩ := Prod.mk.inj he
      rfl

variable {settings : Settings} {disk disk' : Disk} {report : RecoveryReport}

/-- Where mounting finds the files of clusters, opening registers the clusters. -/
theorem open_registers (valid : settings.validate = .ok ())
    (hm : mount dir settings.pageSize settings.poolPages settings.syncOnCommit disk = (.ok (st, report), disk'))
    (h : st.engine.Rests dir place settings.pageSize s) (hsealed : s.Sealed)
    (hf : s.Furnished settings.pageSize n) (hn : Paired s.names) :
    ∃ st', Store.open settings dir disk = (.ok (st', report), st'.disk) ∧
      Registers dir place settings.pageSize s n st' := by
  have hempty : st.registry = .empty := Collection.mount_registry hm
  have houses : st.Houses dir place settings.pageSize s n := by
    refine ⟨h, hsealed, Tree.Ample.ofSettings valid, hf, ?_⟩
    rw [hempty]
    exact nofun
  obtain ⟨loaded, st', hload, hregisters⟩ := houses.loadExisting_gives (mount_usable hm) hempty hn
  refine ⟨st', ?_, hregisters⟩
  rw [Store.open, valid]
  dsimp only
  rw [hm]
  dsimp only
  rw [hload.eq]

namespace Registers

/-- A store that is opened on an empty directory has no clusters. -/
theorem opened {d : Disk} (empty : Disk.OffersEmpty dir disk d) (sound : disk.Sound) (live : disk.outage = none)
    (hdir : dir.Roomy) (pages : settings.pageSize = size)
    (opening : Store.open settings dir disk = (.ok (st, report), disk')) :
    ∃ place node, Registers dir place size (.empty node) 0 st := by
  subst pages
  obtain ⟨valid, _, _, _, hmount, -⟩ := Collection.open_cases opening
  obtain ⟨place, node, hrests, -⟩ := mount_empty empty sound live hdir.fits_log hmount
  obtain ⟨st', hopen, hregisters⟩ := open_registers (n := 0) valid hmount hrests nofun nofun
    ⟨nofun, nofun, nofun, nofun⟩
  rw [opening] at hopen
  cases hopen
  exact ⟨place, node, hregisters⟩

theorem paired (h : Registers dir place size s n st) : Paired s.names :=
  h.matched.cluster_paired h.houses.serves.inj h.houses.kinds

/-- Its catalog lists its files. -/
theorem toMatched (h : Registers dir place size s n st) : st.Matched where
  listed := h.houses.serves.listed
  ample := h.houses.serves.pageSize.symm ▸ h.houses.ample
  registry := by
    have hnames : (fun f : FileId => st.volume.catalog.names[f]?) = s.names := funext h.houses.serves.catalog.name
    exact hnames.symm ▸ h.matched

/-- A store that registers its clusters can be opened again, and registers the same clusters. -/
theorem reopens (h : Registers dir place size s n st) (hdir : dir.Roomy) (valid : settings.validate = .ok ())
    (pages : settings.pageSize = size) : ∃ st' report,
      Store.open settings dir st.disk = (.ok (st', report), st'.disk) ∧ Registers dir place size s n st' := by
  subst pages
  have hpool : 0 < settings.poolPages := Settings.poolPages_pos valid
  have hrests := h.houses.rests
  obtain ⟨st₀, report, _, hmount, hrests₀, rfl⟩ :=
    (h.houses.recovers hdir hrests.mirrors.stocks).gives settings.syncOnCommit hpool hrests.live
  obtain ⟨st', hopen, hregisters⟩ := open_registers valid hmount hrests₀ h.houses.sealed h.houses.furnished h.paired
  exact ⟨st', report, hopen, hregisters⟩

/-- It can be closed, which writes nothing. -/
theorem close_gives (h : Registers dir place size s n st) : ∃ st', close.Gives st () st' ∧ st'.disk = st.disk := by
  have hrests := h.houses.rests
  have hsync : Mounted.syncAll.Gives st.engine.mounted () st.engine.mounted :=
    (hrests.mirrors.syncAll_survives fun _ _ => trivial : Mounted.syncAll.Survives _ (fun _ => True) () _).gives_of_live
      hrests.live hrests.live
  obtain ⟨m, hclose, hdisk⟩ : ∃ m, Mounted.close.Gives st.engine.mounted () m ∧ m.disk = st.disk :=
    ⟨_, hsync.bind (Task.Gives.change _ _), rfl⟩
  have hengine : (Task.onPart Mounted.close : Task Engine StorageError Unit).Gives st.engine ()
      ⟨m, st.engine.journal⟩ := hclose.onPart
  have hstore : (liftM Mounted.close : Task Store StorageError Unit).Gives ⟨st.engine, st.registry.close⟩ ()
      ⟨⟨m, st.engine.journal⟩, st.registry.close⟩ := hengine.onPart
  have hall : close.Gives st () ⟨⟨m, st.engine.journal⟩, st.registry.close⟩ :=
    Task.Gives.bind (Task.Gives.change _ st) (hstore.mapError StoreError.storage)
  exact ⟨_, hall, hdisk⟩

end Registers

end Store

end RefStore
