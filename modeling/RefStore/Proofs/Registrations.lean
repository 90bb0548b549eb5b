import RefStore.Proofs.CollectionRuns
import RefStore.Proofs.Rolls

/-!
# What a registry knows

A registry knows the storages that have a shelf, by their clusters and by their tree files. What an
operation registers and unregisters is taken back in the reverse order, and what was known before is
known again. Storages and ids of collections are not given back.
-/

namespace RefStore

namespace Registry

variable {r r' : Registry} {cluster : ClusterId} {file : FileId} {id : StorageId} {shelves : Shelves}
  {sh : Shelf} {st : ClusterStorage} {p : CollectionPointer}

/-- Registries that answer alike. -/
structure Alike (r r' : Registry) : Prop where
  prohibited : r'.prohibited = r.prohibited
  clusters : ∀ c : ClusterId, r'.clusters[c]? = r.clusters[c]?
  registered : ∀ f : FileId, r'.registered[f]? = r.registered[f]?

namespace Alike

theorem refl (r : Registry) : r.Alike r := ⟨rfl, fun _ => rfl, fun _ => rfl⟩

theorem trans {r'' : Registry} (h : r.Alike r') (h' : r'.Alike r'') : r.Alike r'' :=
  ⟨h'.prohibited.trans h.prohibited, fun c => (h'.clusters c).trans (h.clusters c),
    fun f => (h'.registered f).trans (h.registered f)⟩

theorem undo (h : r.Alike r') (u : Undo) : (r.undo u).Alike (r'.undo u) := by
  cases u with
  | unregister cluster file =>
    refine ⟨h.prohibited, fun c => ?_, fun f => ?_⟩ <;>
      simp only [Registry.undo, withdraw, Std.TreeMap.getElem?_erase, h.clusters, h.registered]
  | register cluster file id =>
    refine ⟨h.prohibited, fun c => ?_, fun f => ?_⟩ <;>
      simp only [Registry.undo, enroll, Std.TreeMap.getElem?_insert, h.clusters, h.registered]
  | step label => exact h

theorem foldl_undo (h : r.Alike r') (steps : List Undo) :
    (steps.foldl Registry.undo r).Alike (steps.foldl Registry.undo r') := by
  induction steps generalizing r r' with
  | nil => exact h
  | cons u steps ih => exact ih (h.undo u)

/-- A new storage is registered and unregistered again. -/
theorem register_withdraw (hc : r.clusters[st.cluster]? = none) (hf : r.registered[st.treeFile]? = none) :
    r.Alike ((r.register st).undo (.unregister st.cluster st.treeFile)) := by
  refine ⟨rfl, fun c => ?_, fun f => ?_⟩
  · simp only [Registry.undo, withdraw, register, enroll, Std.TreeMap.getElem?_erase,
      Std.TreeMap.getElem?_insert, Std.compare_eq_iff_eq]
    split
    · next he => rw [← he, hc]
    · rfl
  · simp only [Registry.undo, withdraw, register, enroll, Std.TreeMap.getElem?_erase,
      Std.TreeMap.getElem?_insert, Std.compare_eq_iff_eq]
    split
    · next he => rw [← he, hf]
    · rfl

/-- A storage is unregistered and registered again. -/
theorem withdraw_enroll (hc : r.clusters[cluster]? = some file) (hf : r.registered[file]? = some id) :
    r.Alike ((r.withdraw cluster file).undo (.register cluster file id)) := by
  refine ⟨rfl, fun c => ?_, fun f => ?_⟩
  · simp only [Registry.undo, withdraw, enroll, Std.TreeMap.getElem?_erase,
      Std.TreeMap.getElem?_insert, Std.compare_eq_iff_eq]
    split
    · next he => rw [← he, hc]
    · rfl
  · simp only [Registry.undo, withdraw, enroll, Std.TreeMap.getElem?_erase,
      Std.TreeMap.getElem?_insert, Std.compare_eq_iff_eq]
    split
    · next he => rw [← he, hf]
    · rfl

end Alike

theorem storages_undo (r : Registry) (steps : List Undo) :
    (steps.foldl Registry.undo r).storages = r.storages := by
  induction steps generalizing r with
  | nil => rfl
  | cons u steps ih =>
    rw [List.foldl_cons, ih]
    cases u <;> rfl

/-- A registry that knows the storages with a shelf and no others. -/
structure Knows (r : Registry) (shelves : Shelves) : Prop where
  allowed : r.prohibited = false
  clusters : ∀ {c : ClusterId} {f : FileId}, r.clusters[c]? = some f ↔
    ∃ id sh, shelves id = some sh ∧ sh.storage.cluster = c ∧ sh.storage.treeFile = f
  registered : ∀ {f : FileId} {id : StorageId}, r.registered[f]? = some id ↔
    ∃ sh, shelves id = some sh ∧ sh.storage.treeFile = f

namespace Knows

theorem empty : Registry.empty.Knows fun _ => none := by
  refine ⟨rfl, ?_, ?_⟩ <;> simp [Registry.empty]

theorem alike (h : r.Knows shelves) (ha : r.Alike r') : r'.Knows shelves :=
  ⟨ha.prohibited.trans h.allowed, fun {c f} => by rw [ha.clusters]; exact h.clusters,
    fun {f id} => by rw [ha.registered]; exact h.registered⟩

/-- No two shelves share a tree file, and none a cluster. -/
theorem sole {i j : StorageId} {x y : Shelf} (h : r.Knows shelves) (hi : shelves i = some x)
    (hj : shelves j = some y) (he : x.storage.treeFile = y.storage.treeFile) : i = j := by
  have hx := h.registered.mpr ⟨x, hi, he⟩
  have hy := h.registered.mpr ⟨y, hj, rfl⟩
  exact Option.some.inj (hx.symm.trans hy)

theorem sole_cluster {i j : StorageId} {x y : Shelf} (h : r.Knows shelves) (hi : shelves i = some x)
    (hj : shelves j = some y) (he : x.storage.cluster = y.storage.cluster) : i = j := by
  have hx := h.clusters.mpr ⟨i, x, hi, he, rfl⟩
  have hy := h.clusters.mpr ⟨j, y, hj, rfl, rfl⟩
  exact h.sole hi hj (Option.some.inj (hx.symm.trans hy))

theorem registeredId?_eq_some (h : r.Knows shelves) :
    r.registeredId? cluster = some id ↔ ∃ sh, shelves id = some sh ∧ sh.storage.cluster = cluster := by
  rw [registeredId?, Option.bind_eq_some_iff]
  constructor
  · rintro ⟨f, hf, hid⟩
    obtain ⟨i, x, hi, hc, hx⟩ := h.clusters.mp hf
    obtain ⟨y, hy, hyf⟩ := h.registered.mp hid
    obtain rfl := h.sole hi hy (hx.trans hyf.symm)
    exact ⟨x, hi, hc⟩
  · rintro ⟨x, hx, hc⟩
    exact ⟨_, h.clusters.mpr ⟨id, x, hx, hc, rfl⟩, h.registered.mpr ⟨x, hx, rfl⟩⟩

theorem storage?_eq_some (h : r.Knows shelves) (hid : shelves id = some sh)
    (hst : r.storages[id]? = some sh.storage) : r.storage? sh.storage.cluster = some sh.storage := by
  rw [storage?, h.registeredId?_eq_some.mpr ⟨sh, hid, rfl⟩]
  exact hst

/-- A pointer leads to a shelf with its tree file, which is one of its cluster. -/
theorem idFor?_eq (h : r.Knows shelves) (hid : shelves id = some sh)
    (hst : r.storages[id]? = some sh.storage) (hf : sh.storage.treeFile = p.file)
    (hc : sh.storage.cluster = p.cluster) : r.idFor? p = some id := by
  have hreg := h.registered.mpr ⟨sh, hid, hf⟩
  simp [idFor?, hreg, hst, hc]

theorem exists_of_idFor? (h : r.Knows shelves) (hid : r.idFor? p = some id) :
    ∃ sh, shelves id = some sh ∧ sh.storage.treeFile = p.file := by
  simp only [idFor?, Option.bind_eq_bind, Option.bind_eq_some_iff] at hid
  obtain ⟨i, hi, st, -, he⟩ := hid
  split at he
  · cases he
    exact h.registered.mp hi
  · cases he

/-- The files of a shelf may be changed. -/
theorem change {sh' : Shelf} (h : r.Knows shelves) (hid : shelves id = some sh)
    (hst : sh'.storage = sh.storage) : r.Knows (Function.update shelves id (some sh')) := by
  have hmem {i : StorageId} {P : ClusterStorage → Prop} :
      (∃ x, Function.update shelves id (some sh') i = some x ∧ P x.storage) ↔
        ∃ x, shelves i = some x ∧ P x.storage := by
    by_cases hi : i = id
    · subst hi
      simp [hid, hst]
    · simp [Function.update_of_ne hi]
  refine ⟨h.allowed, ?_, ?_⟩
  · intro c f
    rw [h.clusters]
    exact exists_congr fun i => (hmem (P := fun st => st.cluster = c ∧ st.treeFile = f)).symm
  · intro f i
    rw [h.registered]
    exact (hmem (P := fun st => st.treeFile = f)).symm

/-- A new shelf is registered. -/
theorem register (h : r.Knows shelves) (hno : ∀ {id sh}, shelves id = some sh →
      sh.storage.cluster ≠ st.cluster ∧ sh.storage.treeFile ≠ st.treeFile)
    (hnone : shelves r.storages.length = none) :
    (r.register st).Knows (Function.update shelves r.storages.length (some ⟨st, [], []⟩)) := by
  have hmem {i : StorageId} {P : ClusterStorage → Prop} :
      (∃ x, Function.update shelves r.storages.length (some ⟨st, [], []⟩) i = some x ∧ P x.storage) ↔
        i = r.storages.length ∧ P st ∨ ∃ x, shelves i = some x ∧ P x.storage := by
    simp [update_some_eq_some hnone, or_and_right, exists_or, and_assoc]
  -- neither the cluster nor the file was known
  have hcluster (f : FileId) : r.clusters[st.cluster]? ≠ some f := by
    rw [Ne, h.clusters]
    rintro ⟨id, sh, hsh, hc, -⟩
    exact (hno hsh).1 hc
  have hfile (i : StorageId) : r.registered[st.tree.component.file]? ≠ some i := by
    rw [Ne, h.registered]
    rintro ⟨sh, hsh, hf⟩
    exact (hno hsh).2 hf
  refine ⟨h.allowed, ?_, ?_⟩
  · intro c f
    simp only [hmem (P := fun st => st.cluster = c ∧ st.treeFile = f), exists_or, exists_eq_left, ← h.clusters]
    simp only [Registry.register, enroll, Std.TreeMap.getElem?_insert, Std.compare_eq_iff_eq]
    split
    · next hc =>
      subst hc
      simp [hcluster, ClusterStorage.treeFile]
    · next hc => simp [hc]
  · intro f i
    rw [hmem (P := fun st => st.treeFile = f), ← h.registered]
    simp only [Registry.register, enroll, Std.TreeMap.getElem?_insert, Std.compare_eq_iff_eq]
    split
    · next hf =>
      subst hf
      simp [hfile, ClusterStorage.treeFile, eq_comm]
    · next hf => simp [hf, ClusterStorage.treeFile]

/-- A shelf is unregistered. -/
theorem withdraw (h : r.Knows shelves) (hid : shelves id = some sh) :
    (r.withdraw sh.storage.cluster sh.storage.treeFile).Knows (Function.update shelves id none) := by
  have hmem {i : StorageId} {x : Shelf} :
      Function.update shelves id none i = some x ↔ i ≠ id ∧ shelves i = some x := by
    by_cases hi : i = id
    · subst hi
      simp
    · simp [hi]
  refine ⟨h.allowed, fun {c f} => ?_, fun {f i} => ?_⟩
  · simp only [Registry.withdraw, Std.TreeMap.getElem?_erase, Std.compare_eq_iff_eq, hmem]
    split
    · next hc =>
      refine ⟨fun he => (by cases he), ?_⟩
      rintro ⟨i, x, ⟨hi, hx⟩, hxc, -⟩
      exact absurd (h.sole_cluster hx hid (hxc.trans hc.symm)) hi
    · next hc =>
      rw [h.clusters]
      refine exists_congr fun i => exists_congr fun x => and_congr_left fun hx' => ?_
      refine ⟨fun hx => ⟨?_, hx⟩, And.right⟩
      rintro rfl
      rw [hid] at hx
      obtain rfl := Option.some.inj hx
      exact hc hx'.1
  · simp only [Registry.withdraw, Std.TreeMap.getElem?_erase, Std.compare_eq_iff_eq, hmem]
    split
    · next hf =>
      refine ⟨fun he => (by cases he), ?_⟩
      rintro ⟨x, ⟨hi, hx⟩, hxf⟩
      exact absurd (h.sole hx hid (hxf.trans hf.symm)) hi
    · next hf =>
      rw [h.registered]
      refine exists_congr fun x => and_congr_left fun hxf => ?_
      refine ⟨fun hx => ⟨?_, hx⟩, And.right⟩
      rintro rfl
      rw [hid] at hx
      obtain rfl := Option.some.inj hx
      exact hf hxf

end Knows

end Registry

end RefStore
