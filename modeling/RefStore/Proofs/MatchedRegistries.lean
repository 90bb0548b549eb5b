import RefStore.Proofs.Maps
import RefStore.Proofs.Registrations

/-!
# Registries and the files of clusters

A registry knows a cluster by the file of its tree, and a file by the storage of its cluster. It matches
files with some names if the registered clusters are those with a tree file. That stays so when a cluster
gets two new files and when it loses its files. What is noted for a rollback leads back, step by step, to
what was registered. Main statements: `Registry.Trail.rollback`, `Registry.Matches.register`,
`Registry.Matches.withdraw`.
-/

namespace RefStore

namespace Cluster

variable {names : FileId → Option String} {c d : ClusterId} {f g k : FileId} {x : String}

/-! ## Names of the files of clusters -/

theorem name_ne (hne : d ≠ c) (hx : x = treeName d ∨ x = sizesName d) : x ≠ treeName c ∧ x ≠ sizesName c := by
  rcases hx with rfl | rfl
  · exact ⟨fun he => hne (treeName_injective he), treeName_ne_sizesName _ _⟩
  · exact ⟨(treeName_ne_sizesName _ _).symm, fun he => hne (sizesName_injective he)⟩

/-- No file has a name of a cluster. -/
def Absent (names : FileId → Option String) (c : ClusterId) : Prop :=
  ∀ k, names k ≠ some (treeName c) ∧ names k ≠ some (sizesName c)

namespace Absent

/-- A file with a name of another cluster does not matter. -/
theorem update (h : Absent names d) (hne : c ≠ d) (hx : x = treeName c ∨ x = sizesName c) (f : FileId) :
    Absent (Function.update names f (some x)) d := by
  intro k
  rw [Function.update_apply]
  split
  · simpa using name_ne hne hx
  · exact h k

theorem forget (h : Absent names d) (f : FileId) : Absent (Function.update names f none) d := by
  intro k
  rw [Function.update_apply]
  split
  · simp
  · exact h k

/-- Of two new files one is the tree and the other one the size map. -/
theorem made (h : Absent names c) (hne : f ≠ g) :
    (Function.update (Function.update names f (some (treeName c))) g (some (sizesName c)) k = some (treeName c) ↔
      k = f) ∧
    (Function.update (Function.update names f (some (treeName c))) g (some (sizesName c)) k = some (sizesName c) ↔
      k = g) := by
  rw [Function.update_apply, Function.update_apply]
  split
  · next he => simp [he, hne.symm, (treeName_ne_sizesName c c).symm]
  · next hg =>
    split
    · next he => simp [he, hne, treeName_ne_sizesName]
    · next hf => simp [hf, hg, h k]

end Absent

/-- Without its two files a cluster is absent. -/
theorem absent_of_forget (apart : ∀ {f g x}, names f = some x → names g = some x → f = g)
    (hf : names f = some (treeName c)) (hg : names g = some (sizesName c)) :
    Absent (Function.update (Function.update names f none) g none) c := by
  intro k
  constructor <;> intro hk <;> rw [update_none_eq_some, update_none_eq_some] at hk
  · exact hk.2.1 (apart hk.2.2 hf)
  · exact hk.1 (apart hk.2.2 hg)

/-- With two new files of a cluster the other clusters have the files that they had. -/
theorem names_made (hne : f ≠ g) (hf : names f = none) (hg : names g = none) (hd : d ≠ c)
    (hx : x = treeName d ∨ x = sizesName d) :
    Function.update (Function.update names f (some (treeName c))) g (some (sizesName c)) k = some x ↔
      names k = some x := by
  rw [update_some_eq_some ((Function.update_of_ne hne.symm _ _).trans hg), update_some_eq_some hf]
  simp [name_ne hd hx]

/-- So have they without its files. -/
theorem names_left (hf : names f = some (treeName c)) (hg : names g = some (sizesName c)) (hd : d ≠ c)
    (hx : x = treeName d ∨ x = sizesName d) :
    Function.update (Function.update names f none) g none k = some x ↔ names k = some x := by
  rw [update_none_eq_some, update_none_eq_some]
  refine ⟨fun h => h.2.2, fun hk => ⟨?_, ?_, hk⟩⟩ <;> rintro rfl
  · exact (name_ne hd hx).2 (Option.some.inj (hk.symm.trans hg))
  · exact (name_ne hd hx).1 (Option.some.inj (hk.symm.trans hf))

end Cluster

namespace Registry

variable {r r' r₀ : Registry} {names : FileId → Option String} {cluster : ClusterId} {file : FileId}
  {st : ClusterStorage} {u : Undo} {us : List Undo}

/-- The storage that a file stands for. -/
def storageOf? (r : Registry) (file : FileId) : Option ClusterStorage :=
  r.registered[file]?.bind fun id => r.storages[id]?

/-- A cluster has the file of the storage that the file stands for. -/
structure Inverse (r : Registry) : Prop where
  storage : ∀ {c : ClusterId} {f : FileId}, r.clusters[c]? = some f →
    ∃ st, r.storageOf? f = some st ∧ st.cluster = c ∧ st.treeFile = f
  cluster : ∀ {f : FileId} {id : StorageId}, r.registered[f]? = some id →
    ∃ st, r.storages[id]? = some st ∧ st.treeFile = f ∧ r.clusters[st.cluster]? = some f

/-- A registry that answers like another one and has its storages, and maybe more. -/
structure Extends (r r' : Registry) : Prop where
  alike : r.Alike r'
  storages : r.storages <+: r'.storages

namespace Extends

theorem refl (r : Registry) : r.Extends r := ⟨.refl r, List.prefix_rfl⟩

theorem trans {r'' : Registry} (h : r.Extends r') (h' : r'.Extends r'') : r.Extends r'' :=
  ⟨h.alike.trans h'.alike, h.storages.trans h'.storages⟩

theorem undo (h : r.Extends r') (u : Undo) : (r.undo u).Extends (r'.undo u) :=
  ⟨h.alike.undo u, by cases u <;> exact h.storages⟩

theorem storages_eq (h : r.Extends r') {id : StorageId} (hid : r.storages[id]? = some st) :
    r'.storages[id]? = some st := by
  obtain ⟨more, hmore⟩ := h.storages
  rw [← hmore, List.getElem?_append_left (List.getElem?_eq_some_iff.mp hid).1]
  exact hid

theorem storageOf?_eq (h : r.Extends r') (hinv : r.Inverse) (f : FileId) : r'.storageOf? f = r.storageOf? f := by
  rw [storageOf?, storageOf?, h.alike.registered]
  cases hid : r.registered[f]? with
  | none => rfl
  | some id =>
    obtain ⟨st, hst, -⟩ := hinv.cluster hid
    exact (h.storages_eq hst).trans hst.symm

theorem inverse (h : r.Extends r') (hinv : r.Inverse) : r'.Inverse where
  storage {c f} hc := by
    rw [h.storageOf?_eq hinv]
    exact hinv.storage ((h.alike.clusters c).symm.trans hc)
  cluster {f id} hf := by
    obtain ⟨st, hst, hfile, hc⟩ := hinv.cluster ((h.alike.registered f).symm.trans hf)
    exact ⟨st, h.storages_eq hst, hfile, (h.alike.clusters _).trans hc⟩

end Extends

/-- Steps that lead back from a registry to one that was there before. On the way each cluster has the file
of its storage. -/
inductive Trail (r₀ : Registry) : List Undo → Registry → Prop where
  | start {r : Registry} (same : r₀.Extends r) (inverse : r.Inverse) : Trail r₀ [] r
  | step {u : Undo} {us : List Undo} {r : Registry} (back : Trail r₀ us (r.undo u)) (inverse : r.Inverse) :
      Trail r₀ (u :: us) r

namespace Trail

theorem inverse (h : r₀.Trail us r) : r.Inverse := by
  cases h with
  | start _ inverse => exact inverse
  | step _ inverse => exact inverse

theorem extend (h : r₀.Trail us r) (he : r.Extends r') : r₀.Trail us r' := by
  induction h generalizing r' with
  | start same inverse => exact .start (same.trans he) (he.inverse inverse)
  | step back inverse ih => exact .step (ih (he.undo _)) (he.inverse inverse)

/-- Taken back the last step first, the steps lead to what was registered. -/
theorem rollback (h : r₀.Trail us r) : r₀.Extends (us.foldl Registry.undo r) := by
  induction h with
  | start same inverse => exact same
  | step back inverse ih => exact ih

/-- Access is prohibited or allowed as it was. -/
theorem prohibited (h : r₀.Trail us r) : r.prohibited = r₀.prohibited := by
  induction h with
  | start same inverse => exact same.alike.prohibited
  | @step u us r back inverse ih =>
    rw [← ih]
    cases u <;> rfl

theorem inverse_take (h : r₀.Trail us r) (n : Nat) : ((us.take n).foldl Registry.undo r).Inverse := by
  induction h generalizing n with
  | start same inverse => simpa using inverse
  | step back inverse ih =>
    cases n with
    | zero => exact inverse
    | succ n => exact ih n

end Trail

/-- The registered clusters are those whose tree file is there. Each has the storage of its files, and a size
map has a tree beside it. -/
structure Matches (r : Registry) (names : FileId → Option String) : Prop where
  clusters : ∀ {c : ClusterId} {f : FileId}, r.clusters[c]? = some f ↔ names f = some (Cluster.treeName c)
  storage : ∀ {c : ClusterId} {f : FileId}, names f = some (Cluster.treeName c) →
    ∃ st, r.storageOf? f = some st ∧ st.cluster = c ∧ st.treeFile = f ∧
      names st.sizesFile = some (Cluster.sizesName c)
  registered : ∀ {f : FileId}, f ∈ r.registered → ∃ c, names f = some (Cluster.treeName c)
  paired : ∀ {c : ClusterId} {f : FileId}, names f = some (Cluster.sizesName c) → ∃ g, r.clusters[c]? = some g

theorem storageOf?_register_self (r : Registry) (st : ClusterStorage) :
    (r.register st).storageOf? st.treeFile = some st := by
  simp [storageOf?, Registry.register, enroll, ClusterStorage.treeFile]

theorem storageOf?_register_of_ne (hne : file ≠ st.treeFile) {s : ClusterStorage} (hs : r.storageOf? file = some s) :
    (r.register st).storageOf? file = some s := by
  obtain ⟨id, hid, hs⟩ := Option.bind_eq_some_iff.mp hs
  have hid' : (r.register st).registered[file]? = some id := (lookup_insert_of_ne hne).trans hid
  rw [storageOf?, hid', Option.bind_some]
  exact (List.getElem?_append_left (List.getElem?_eq_some_iff.mp hs).1).trans hs

namespace Matches

theorem inverse (h : r.Matches names) : r.Inverse where
  storage hc := by
    obtain ⟨st, hst, hcluster, hfile, -⟩ := h.storage (h.clusters.mp hc)
    exact ⟨st, hst, hcluster, hfile⟩
  cluster {f id} hid := by
    obtain ⟨c, hc⟩ := h.registered (Std.TreeMap.mem_iff_isSome_getElem?.mpr (by rw [hid]; rfl))
    obtain ⟨st, hst, rfl, hfile, -⟩ := h.storage hc
    rw [storageOf?, hid] at hst
    exact ⟨st, hst, hfile, h.clusters.mpr hc⟩

theorem extend (h : r.Matches names) (he : r.Extends r') : r'.Matches names where
  clusters {c f} := by
    rw [he.alike.clusters]
    exact h.clusters
  storage {c f} hf := by
    rw [he.storageOf?_eq h.inverse]
    exact h.storage hf
  registered {f} hf := by
    refine h.registered ?_
    rw [Std.TreeMap.mem_iff_isSome_getElem?, ← he.alike.registered, ← Std.TreeMap.mem_iff_isSome_getElem?]
    exact hf
  paired {c f} hf := by
    rw [he.alike.clusters]
    exact h.paired hf

/-- A cluster without a tree file has no files, and one with a tree file is registered. -/
theorem free (h : r.Matches names) (hno : r.registeredId? cluster = none) : Cluster.Absent names cluster := by
  have htree (f : FileId) : names f ≠ some (Cluster.treeName cluster) := by
    intro hf
    obtain ⟨st, hst, -⟩ := h.storage hf
    rw [storageOf?, Option.bind_eq_some_iff] at hst
    obtain ⟨id, hid, -⟩ := hst
    rw [registeredId?, h.clusters.mpr hf, Option.bind_some, hid] at hno
    cases hno
  refine fun f => ⟨htree f, fun hf => ?_⟩
  obtain ⟨g, hg⟩ := h.paired hf
  exact htree g (h.clusters.mp hg)

theorem clusters_free (h : r.Matches names) (hno : r.registeredId? cluster = none) : r.clusters[cluster]? = none := by
  rw [Option.eq_none_iff_forall_ne_some]
  intro f hf
  exact (h.free hno f).1 (h.clusters.mp hf)

theorem empty : Registry.empty.Matches fun _ => none := by
  refine ⟨?_, nofun, ?_, nofun⟩ <;> simp [Registry.empty]

theorem unregistered (h : r.Matches names) (hf : names file = none) : r.registered[file]? = none := by
  rw [Option.eq_none_iff_forall_ne_some]
  intro id hid
  obtain ⟨c, hc⟩ := h.registered (Std.TreeMap.mem_iff_isSome_getElem?.mpr (by rw [hid]; rfl))
  rw [hf] at hc
  cases hc

/-- The files of a new storage are registered. -/
theorem register (h : r.Matches names) (hno : r.registeredId? st.cluster = none) (hne : st.treeFile ≠ st.sizesFile)
    (htree : names st.treeFile = none) (hsizes : names st.sizesFile = none) :
    (r.register st).Matches (Function.update (Function.update names st.treeFile (some (Cluster.treeName st.cluster)))
      st.sizesFile (some (Cluster.sizesName st.cluster))) := by
  have hfree := h.free hno
  refine ⟨fun {c f} => ?_, fun {c f} hf => ?_, fun {f} hf => ?_, fun {c f} hf => ?_⟩
  · by_cases hc : c = st.cluster
    · subst hc
      rw [(hfree.made hne).1]
      simp [Registry.register, enroll, eq_comm]
    · rw [Cluster.names_made hne htree hsizes hc (.inl rfl), ← h.clusters, Registry.register, enroll,
        lookup_insert_of_ne hc]
  · by_cases hc : c = st.cluster
    · subst hc
      obtain rfl := (hfree.made hne).1.mp hf
      exact ⟨st, storageOf?_register_self r st, rfl, rfl, (hfree.made hne).2.mpr rfl⟩
    · have hold := (Cluster.names_made hne htree hsizes hc (.inl rfl)).mp hf
      obtain ⟨s, hs, howner, hfile, hnamed⟩ := h.storage hold
      have hf' : f ≠ st.treeFile := by
        rintro rfl
        rw [htree] at hold
        cases hold
      exact ⟨s, storageOf?_register_of_ne hf' hs, howner, hfile,
        (Cluster.names_made hne htree hsizes hc (.inr rfl)).mpr hnamed⟩
  · rcases Std.TreeMap.mem_insert.mp hf with he | hf
    · obtain rfl : st.treeFile = f := by simpa using he
      exact ⟨st.cluster, (hfree.made hne).1.mpr rfl⟩
    · obtain ⟨c, hname⟩ := h.registered hf
      have hc : c ≠ st.cluster := by
        rintro rfl
        exact (hfree f).1 hname
      exact ⟨c, (Cluster.names_made hne htree hsizes hc (.inl rfl)).mpr hname⟩
  · by_cases hc : c = st.cluster
    · exact ⟨st.treeFile, hc ▸ Std.TreeMap.getElem?_insert_self⟩
    · obtain ⟨g, hg⟩ := h.paired ((Cluster.names_made hne htree hsizes hc (.inr rfl)).mp hf)
      exact ⟨g, (lookup_insert_of_ne hc).trans hg⟩

/-- A storage is unregistered with its files. -/
theorem withdraw (h : r.Matches names) (hapart : ∀ {f g x}, names f = some x → names g = some x → f = g)
    (htree : names st.treeFile = some (Cluster.treeName st.cluster))
    (hsizes : names st.sizesFile = some (Cluster.sizesName st.cluster)) :
    (r.withdraw st.cluster st.treeFile).Matches
      (Function.update (Function.update names st.treeFile none) st.sizesFile none) := by
  have hgone := Cluster.absent_of_forget hapart htree hsizes
  refine ⟨fun {c f} => ?_, fun {c f} hf => ?_, fun {f} hf => ?_, fun {c f} hf => ?_⟩
  · by_cases hc : c = st.cluster
    · subst hc
      simp [Registry.withdraw, (hgone f).1]
    · rw [Cluster.names_left htree hsizes hc (.inl rfl), ← h.clusters, Registry.withdraw, lookup_erase_of_ne hc]
  · have hc : c ≠ st.cluster := by
      rintro rfl
      exact (hgone f).1 hf
    have hold := (Cluster.names_left htree hsizes hc (.inl rfl)).mp hf
    obtain ⟨s, hs, howner, hfile, hnamed⟩ := h.storage hold
    have hf' : f ≠ st.treeFile := by
      rintro rfl
      exact hc (Cluster.treeName_injective (Option.some.inj (hold.symm.trans htree)))
    refine ⟨s, ?_, howner, hfile, (Cluster.names_left htree hsizes hc (.inr rfl)).mpr hnamed⟩
    rw [storageOf?, Registry.withdraw, lookup_erase_of_ne hf']
    exact hs
  · obtain ⟨hne, hf⟩ := Std.TreeMap.mem_erase.mp hf
    obtain ⟨c, hname⟩ := h.registered hf
    have hc : c ≠ st.cluster := by
      rintro rfl
      exact hne (by simp [hapart hname htree])
    exact ⟨c, (Cluster.names_left htree hsizes hc (.inl rfl)).mpr hname⟩
  · have hc : c ≠ st.cluster := by
      rintro rfl
      exact (hgone f).2 hf
    obtain ⟨g, hg⟩ := h.paired ((Cluster.names_left htree hsizes hc (.inr rfl)).mp hf)
    exact ⟨g, (lookup_erase_of_ne hc).trans hg⟩

end Matches

end Registry

end RefStore
