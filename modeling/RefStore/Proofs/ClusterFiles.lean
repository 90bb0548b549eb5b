import RefStore.Proofs.Readings
import RefStore.Proofs.RestingEngines
import RefStore.Proofs.Shelves

/-!
# Files of clusters

Whatever is done to the trees and size maps of clusters, each file that an operation sees is filled as
its name says: with a tree or with a size map. A change at a key or a slot of a cluster is not seen in
other clusters, nor in its collections with other ids and slots. Main statements: `Hosts.put`,
`Hosts.remove`, `Hosts.move`.
-/

namespace RefStore

variable {size n n' : Nat} {s : Stock} {t t' : Transaction} {st b : ClusterStorage}
  {storages : List ClusterStorage} {cluster : ClusterId} {f : FileId} {x : String}

/-! ## What the files of clusters hold -/

namespace Cluster

/-- Pages that a file of a cluster is filled with: a tree or a size map, as its name says. -/
def Fills (size n : Nat) (x : String) (pages : List Page) : Prop :=
  ∃ cluster, x = treeName cluster ∧ (∃ es, Tree.Written size es n pages) ∨
    x = sizesName cluster ∧ ∃ ns, SizeMap.Written size ns pages

namespace Fills

variable {pages : List Page}

theorem mono (h : Fills size n x pages) (hn : n ≤ n') : Fills size n' x pages := by
  obtain ⟨cluster, ⟨hx, es, hes⟩ | hsizes⟩ := h
  · exact ⟨cluster, .inl ⟨hx, es, hes.mono hn⟩⟩
  · exact ⟨cluster, .inr hsizes⟩

theorem alike (hample : Tree.Ample size) (ps qs : List Page) (ha : List.Forall₂ Page.Alike ps qs)
    (hs : ∀ p ∈ ps, p.size = size) (h : Fills size n x ps) : Fills size n x qs := by
  obtain ⟨cluster, ⟨hx, es, hes⟩ | ⟨hx, ns, hns⟩⟩ := h
  · exact ⟨cluster, .inl ⟨hx, es, hes.alike hample ps qs ha hs⟩⟩
  · exact ⟨cluster, .inr ⟨hx, ns, hns.alike hample ps qs ha hs⟩⟩

theorem tree (h : Fills size n (treeName cluster) pages) : ∃ es, Tree.Written size es n pages := by
  obtain ⟨c, ⟨-, hes⟩ | ⟨hx, -⟩⟩ := h
  · exact hes
  · exact absurd hx (treeName_ne_sizesName _ _)

theorem sizes (h : Fills size n (sizesName cluster) pages) : ∃ ns, SizeMap.Written size ns pages := by
  obtain ⟨c, ⟨hx, -⟩ | ⟨-, hns⟩⟩ := h
  · exact absurd hx.symm (treeName_ne_sizesName _ _)
  · exact hns

end Fills

end Cluster

/-- A name that a file has in an operation, or has had before it. -/
def Operation.Carries (op : Operation) (s : Stock) (f : FileId) (x : String) : Prop :=
  (f, x) ∈ op.created ∨ s.names f = some x

theorem Operation.Sees.carries {op : Operation} (h : op.Sees s f x) : op.Carries s f x :=
  h.imp_right And.left

/-- A storage whose files were handed out before, and have the names of its cluster if any. -/
structure ClusterStorage.Housed (carries : FileId → String → Prop) (next : FileId) (st : ClusterStorage) :
    Prop where
  tree_lt : st.treeFile < next
  sizes_lt : st.sizesFile < next
  tree : ∀ x, carries st.treeFile x → x = Cluster.treeName st.cluster
  sizes : ∀ x, carries st.sizesFile x → x = Cluster.sizesName st.cluster

namespace ClusterStorage.Housed

variable {carries carries' : FileId → String → Prop} {next next' : FileId}

theorem mono (h : st.Housed carries next) (hn : next ≤ next') (hc : ∀ f < next, ∀ x, carries' f x → carries f x) :
    st.Housed carries' next' :=
  ⟨UInt32.lt_of_lt_of_le h.tree_lt hn, UInt32.lt_of_lt_of_le h.sizes_lt hn,
    fun x hx => h.tree x (hc _ h.tree_lt x hx), fun x hx => h.sizes x (hc _ h.sizes_lt x hx)⟩

theorem attached (h : st.Housed carries next) :
    st.tree.component.isAttached ∧ st.sizes.component.isAttached :=
  ⟨decide_eq_true (FileId.ne_none_of_lt h.tree_lt), decide_eq_true (FileId.ne_none_of_lt h.sizes_lt)⟩

end ClusterStorage.Housed

/-- Two transactions show the same of a collection and of a slot. -/
structure ClusterStorage.Alike (b : ClusterStorage) (c : CollectionId) (slot : SlotId) (t t' : Transaction) :
    Prop where
  reading : b.tree.reading c t' = b.tree.reading c t
  count : ((b.sizes.count slot).start t').1 = ((b.sizes.count slot).start t).1

namespace ClusterStorage.Alike

variable {c : CollectionId} {slot : SlotId}

theorem refl (b : ClusterStorage) (c : CollectionId) (slot : SlotId) (t : Transaction) : b.Alike c slot t t :=
  ⟨rfl, rfl⟩

theorem trans {t'' : Transaction} (h : b.Alike c slot t t') (h' : b.Alike c slot t' t'') :
    b.Alike c slot t t'' :=
  ⟨h'.reading.trans h.reading, h'.count.trans h.count⟩

end ClusterStorage.Alike

/-! ## Names that are taken -/

theorem Transaction.addFile_taken (h : (Transaction.fileExists x).Gives t true t) :
    (Transaction.addFile x).start t = (refuse (.fileExists x), t) := by
  rw [addFile, h.start_bind, if_pos rfl]
  rfl

theorem Tree.create_taken {tree : Tree} (h : (Transaction.fileExists tree.fileName).Gives t true t) :
    ∃ cause, tree.create.start t = (.error cause, t) := by
  have hadd : (liftM (Transaction.addFile tree.fileName) : Task Transaction TreeError FileId).start t =
      (refuse (.storage (.fileExists tree.fileName)), t) := by
    show (((Transaction.addFile tree.fileName).start t).1.mapError TreeError.storage,
      ((Transaction.addFile tree.fileName).start t).2) = _
    rw [Transaction.addFile_taken h]
    rfl
  rw [create, during, Task.start_mapError, Task.start_bind, hadd]
  exact ⟨_, rfl⟩

theorem SizeMap.create_taken {m : SizeMap} (h : (Transaction.fileExists m.fileName).Gives t true t) :
    ∃ cause, m.create.start t = (.error cause, t) := by
  have hadd : (liftM (Transaction.addFile m.fileName) : Task Transaction SizesError FileId).start t =
      (refuse (.storage (.fileExists m.fileName)), t) := by
    show (((Transaction.addFile m.fileName).start t).1.mapError SizesError.storage,
      ((Transaction.addFile m.fileName).start t).2) = _
    rw [Transaction.addFile_taken h]
    rfl
  rw [create, during, Task.start_mapError, Task.start_bind, hadd]
  exact ⟨_, rfl⟩

namespace Transaction

/-- A transaction with all pages in memory that sees files of clusters only, each filled as its name
says, and has some storages. -/
structure Hosts (size : Nat) (s : Stock) (n : Nat) (storages : List ClusterStorage) (t : Transaction) :
    Prop where
  ready : t.Ready size s
  ample : Tree.Ample size
  drafted : t.Drafted
  filled : ∀ {f x}, t.operation.Sees s f x → t.Finds f (s.held f) (Cluster.Fills size n x)
  housed : ∀ st ∈ storages, st.Housed (t.operation.Carries s) t.mounted.volume.catalog.nextId

namespace Hosts

theorem mono (h : t.Hosts size s n storages) (hn : n ≤ n') : t.Hosts size s n' storages :=
  ⟨h.ready, h.ample, h.drafted, fun hs => (h.filled hs).imp fun _ hp => hp.mono hn, h.housed⟩

/-- What the tree of a storage holds. -/
theorem tree (h : t.Hosts size s n storages) (hst : st ∈ storages) :
    ∃ o, t.Holds (fun es => Tree.Written size es n) s st.treeFile o := by
  by_cases hx : ∃ x, t.operation.Sees s st.treeFile x
  · obtain ⟨x, hx⟩ := hx
    obtain ⟨pages, hp, hfill⟩ := h.filled hx
    obtain rfl := (h.housed st hst).tree x hx.carries
    obtain ⟨es, hes⟩ := hfill.tree
    exact ⟨some es, ⟨_, hx⟩, pages, hp, hes⟩
  · exact ⟨none, not_exists.mp hx⟩

/-- What the size map of a storage holds. -/
theorem sizes (h : t.Hosts size s n storages) (hst : st ∈ storages) :
    ∃ o, t.Holds (SizeMap.Written size) s st.sizesFile o := by
  by_cases hx : ∃ x, t.operation.Sees s st.sizesFile x
  · obtain ⟨x, hx⟩ := hx
    obtain ⟨pages, hp, hfill⟩ := h.filled hx
    obtain rfl := (h.housed st hst).sizes x hx.carries
    obtain ⟨ns, hns⟩ := hfill.sizes
    exact ⟨some ns, ⟨_, hx⟩, pages, hp, hns⟩
  · exact ⟨none, not_exists.mp hx⟩

/-! ## Changes of a file -/

section

variable (h : t.Hosts size s n storages)

include h

/-- One file is filled anew. -/
theorem alter (hs : t.operation.Sees s f x) (ha : Alters f t t') (hd : t'.Drafted)
    (hf : t'.Finds f (s.held f) (Cluster.Fills size n' x)) (hn : n ≤ n') : t'.Hosts size s n' storages := by
  have hready := h.ready.alter hs ha hf
  refine ⟨hready, h.ample, hd, fun {g y} hg => ?_, fun st hst => (h.housed st hst).mono ?_ fun g _ y hy => ?_⟩
  · have hg' := (Ready.sees_alters ha).mp hg
    by_cases hgf : g = f
    · subst hgf
      have hx : x = y := by
        rcases hs with hc | ⟨hname, -⟩ <;> rcases hg' with hc' | ⟨hname', -⟩
        · exact h.ready.based.operation.created_name hc hc'
        · exact absurd (h.ready.based.operation.fresh _ hc) (by rw [hname']; nofun)
        · exact absurd (h.ready.based.operation.fresh _ hc') (by rw [hname]; nofun)
        · exact Option.some.inj (hname.symm.trans hname')
      exact hx ▸ hf
    · exact ((Leaves.alters ha hgf).finds (h.filled hg')).imp fun _ hp => hp.mono hn
  · rw [ha.mounted]
    exact UInt32.le_refl _
  · rwa [Operation.Carries, ha.created] at hy

/-- Where the files are left alone a storage shows what it did. -/
theorem alike_of_leaves (h' : t'.Over size s) (hb : b ∈ storages)
    (hsees : ∀ f x, t'.operation.Sees s f x ↔ t.operation.Sees s f x) (htree : Leaves b.treeFile t t')
    (hsizes : Leaves b.sizesFile t t') (c : CollectionId) (slot : SlotId) : b.Alike c slot t t' := by
  obtain ⟨o, ho⟩ := h.tree hb
  obtain ⟨q, hq⟩ := h.sizes hb
  obtain ⟨hatt, hatt'⟩ := (h.housed b hb).attached
  have ho' := ho.leaves htree fun x => hsees _ x
  have hq' := hq.leaves hsizes fun x => hsees _ x
  constructor
  · rw [Tree.reading_eq hatt h.ample h' ho' c, Tree.reading_eq hatt h.ample h.ready.based ho c]
  · rw [SizeMap.count_eq hatt' h.ample h' hq' slot, SizeMap.count_eq hatt' h.ample h.ready.based hq slot]

variable (hst : st ∈ storages)

include hst

/-- The tree of a cluster gets other entries. -/
theorem changeTree {es es' : List Entry} (hs : t.operation.Sees s st.treeFile x)
    (ha : Alters st.treeFile t t') (hd : t'.Drafted)
    (hf : t.Finds st.treeFile (s.held st.treeFile) (Tree.Written size es n))
    (hf' : t'.Finds st.treeFile (s.held st.treeFile) (Tree.Written size es' n')) (hn : n ≤ n') :
    t'.Hosts size s n' storages ∧ ∀ b ∈ storages, ∀ c slot,
      (b.cluster = st.cluster → Tree.ownEntries c es' = Tree.ownEntries c es) → b.Alike c slot t t' := by
  obtain rfl := (h.housed st hst).tree x hs.carries
  have hosts := h.alter hs ha hd (hf'.imp fun _ hp => ⟨st.cluster, .inl ⟨rfl, es', hp⟩⟩) hn
  refine ⟨hosts, fun b hb c slot hown => ?_⟩
  have hover' := hosts.ready.based
  have hne : b.sizesFile ≠ st.treeFile := fun he =>
    Cluster.treeName_ne_sizesName _ _ ((h.housed b hb).sizes _ (he ▸ hs.carries))
  by_cases he : b.treeFile = st.treeFile
  · have hc : b.cluster = st.cluster :=
      (Cluster.treeName_injective ((h.housed b hb).tree _ (he ▸ hs.carries))).symm
    obtain ⟨hatt, hatt'⟩ := (h.housed b hb).attached
    obtain ⟨q, hq⟩ := h.sizes hb
    have hq' := hq.leaves (.alters ha hne) fun _ => Ready.sees_alters ha
    have ho : t.Holds (fun es => Tree.Written size es n) s b.treeFile (some es) :=
      he ▸ ⟨⟨_, hs⟩, hf⟩
    have ho' : t'.Holds (fun es => Tree.Written size es n') s b.treeFile (some es') :=
      he ▸ ⟨⟨_, (Ready.sees_alters ha).mpr hs⟩, hf'⟩
    constructor
    · rw [Tree.reading_eq hatt h.ample hover' ho' c, Tree.reading_eq hatt h.ample h.ready.based ho c,
        Option.map_some, Option.map_some, hown hc]
    · rw [SizeMap.count_eq hatt' h.ample hover' hq' slot,
        SizeMap.count_eq hatt' h.ample h.ready.based hq slot]
  · exact h.alike_of_leaves hover' hb (fun _ _ => Ready.sees_alters ha) (.alters ha he) (.alters ha hne) c slot

/-- The size map of a cluster gets other numbers. -/
theorem changeSizes {ns ns' : List Int32} (hs : t.operation.Sees s st.sizesFile x)
    (ha : Alters st.sizesFile t t') (hd : t'.Drafted)
    (hf : t.Finds st.sizesFile (s.held st.sizesFile) (SizeMap.Written size ns))
    (hf' : t'.Finds st.sizesFile (s.held st.sizesFile) (SizeMap.Written size ns')) :
    t'.Hosts size s n storages ∧ ∀ b ∈ storages, ∀ c (slot : SlotId),
      (b.cluster = st.cluster → ns'[slot.toNat]? = ns[slot.toNat]?) → b.Alike c slot t t' := by
  obtain rfl := (h.housed st hst).sizes x hs.carries
  have hosts := h.alter hs ha hd (hf'.imp fun _ hp => ⟨st.cluster, .inr ⟨rfl, ns', hp⟩⟩) (Nat.le_refl n)
  refine ⟨hosts, fun b hb c slot hown => ?_⟩
  have hover' := hosts.ready.based
  have hne : b.treeFile ≠ st.sizesFile := fun he =>
    Cluster.treeName_ne_sizesName _ _ ((h.housed b hb).tree _ (he ▸ hs.carries)).symm
  by_cases he : b.sizesFile = st.sizesFile
  · have hc : b.cluster = st.cluster :=
      (Cluster.sizesName_injective ((h.housed b hb).sizes _ (he ▸ hs.carries))).symm
    obtain ⟨hatt, hatt'⟩ := (h.housed b hb).attached
    obtain ⟨o, ho⟩ := h.tree hb
    have ho' := ho.leaves (.alters ha hne) fun _ => Ready.sees_alters ha
    have hq : t.Holds (SizeMap.Written size) s b.sizesFile (some ns) := he ▸ ⟨⟨_, hs⟩, hf⟩
    have hq' : t'.Holds (SizeMap.Written size) s b.sizesFile (some ns') :=
      he ▸ ⟨⟨_, (Ready.sees_alters ha).mpr hs⟩, hf'⟩
    constructor
    · rw [Tree.reading_eq hatt h.ample hover' ho' c, Tree.reading_eq hatt h.ample h.ready.based ho c]
    · rw [SizeMap.count_eq hatt' h.ample hover' hq' slot,
        SizeMap.count_eq hatt' h.ample h.ready.based hq slot, Option.map_some, Option.map_some, hown hc]
  · exact h.alike_of_leaves hover' hb (fun _ _ => Ready.sees_alters ha) (.alters ha hne) (.alters ha he) c slot

/-! ## Calls on trees and size maps -/

/-- A put is not seen in other clusters, nor in other collections of the cluster. -/
theorem put (hn : n + 1 < 2 ^ 61) (key : Key) (value : Int32) :
    ((st.tree.put key value).start t).2.Hosts size s (n + 1) storages ∧ ∀ b ∈ storages, ∀ c slot,
      (b.cluster = st.cluster → key.collection ≠ c) → b.Alike c slot t ((st.tree.put key value).start t).2 := by
  have hatt := ((h.housed st hst).attached).1
  obtain ⟨o, ho⟩ := h.tree hst
  cases o with
  | none =>
    obtain ⟨cause, hstart⟩ := Tree.put_unseen hatt h.ready.based ho key value
    rw [hstart]
    exact ⟨h.mono (Nat.le_succ n), fun b _ c slot _ => .refl b c slot t⟩
  | some es =>
    obtain ⟨⟨x, hs⟩, hf⟩ := ho
    obtain ⟨below, old, above, t', hcut, hg, ha, hf'⟩ :=
      Tree.put_finds hatt h.ample h.ready.pageSize hf hn key value
    have hd := Tree.put_lasts Drafted.lasting st.tree key value t h.drafted
    rw [hg.eq] at hd ⊢
    obtain ⟨hosts, halike⟩ := h.changeTree hst hs ha hd hf hf' (Nat.le_succ n)
    refine ⟨hosts, fun b hb c slot hapart => halike b hb c slot fun hc => ?_⟩
    rw [← Tree.ownEntries_cut hcut (hapart hc) (some value)]
    simp

/-- Nor is a removal. -/
theorem remove (key : Key) :
    ((st.tree.remove key).start t).2.Hosts size s n storages ∧ ∀ b ∈ storages, ∀ c slot,
      (b.cluster = st.cluster → key.collection ≠ c) → b.Alike c slot t ((st.tree.remove key).start t).2 := by
  have hatt := ((h.housed st hst).attached).1
  obtain ⟨o, ho⟩ := h.tree hst
  cases o with
  | none =>
    obtain ⟨cause, hstart⟩ := Tree.remove_unseen hatt h.ready.based ho key
    rw [hstart]
    exact ⟨h, fun b _ c slot _ => .refl b c slot t⟩
  | some es =>
    obtain ⟨⟨x, hs⟩, hf⟩ := ho
    obtain ⟨below, old, above, t', hcut, hg, ha, hf'⟩ :=
      Tree.remove_finds hatt h.ample h.ready.pageSize hf key
    have hd := Tree.remove_lasts Drafted.lasting st.tree key t h.drafted
    rw [hg.eq] at hd ⊢
    obtain ⟨hosts, halike⟩ := h.changeTree hst hs ha hd hf hf' (Nat.le_refl n)
    refine ⟨hosts, fun b hb c slot hapart => halike b hb c slot fun hc => ?_⟩
    rw [← Tree.ownEntries_cut hcut (hapart hc) none]
    simp

/-- A change of a slot is not seen in other clusters, nor in other slots of the cluster. -/
theorem move {α : Type} {g : SlotId → Page → Checked SizesError (α × List Write)} {move : Bucket.Move α}
    (hg : Bucket.Moves g move) (operation : String) (id : SlotId) {t' : Transaction}
    (ht' : ((do
      let file ← st.sizes.file
      st.sizes.during operation (SizeMap.onSlot file id g) : Task Transaction SizesError α).start t).2 = t') :
    t'.Hosts size s n storages ∧ ∀ b ∈ storages, ∀ c slot,
      (b.cluster = st.cluster → id ≠ slot) → b.Alike c slot t t' := by
  have hatt := ((h.housed st hst).attached).2
  have hd := SizeMap.changeSlot_lasts Drafted.lasting st.sizes operation id g t h.drafted
  rw [ht'] at hd
  obtain ⟨o, ho⟩ := h.sizes hst
  cases o with
  | none =>
    obtain ⟨cause, hstart⟩ := SizeMap.onSlot_unseen hatt h.ample h.ready.based ho operation id g
    rw [hstart] at ht'
    subst ht'
    exact ⟨h, fun b _ c slot _ => .refl b c slot t⟩
  | some ns =>
    obtain ⟨⟨x, hs⟩, hf⟩ := ho
    obtain ⟨outcome, t₁, hstart, ha, hend⟩ :=
      SizeMap.moves_finds hatt h.ample h.ready.pageSize hf hg operation id
    rw [hstart] at ht'
    subst ht'
    have hkept (hf' : t₁.Finds st.sizesFile (s.held st.sizesFile) (SizeMap.Written size ns)) :=
      h.changeSizes hst hs ha hd hf hf'
    cases hid : ns[id.toNat]? with
    | none =>
      rw [hid] at hend
      obtain ⟨hosts, halike⟩ := hkept hend.2
      exact ⟨hosts, fun b hb c slot _ => halike b hb c slot fun _ => rfl⟩
    | some k =>
      rw [hid] at hend
      dsimp only at hend
      cases hmove : move k with
      | error kind =>
        rw [hmove] at hend
        obtain ⟨hosts, halike⟩ := hkept hend.2
        exact ⟨hosts, fun b hb c slot _ => halike b hb c slot fun _ => rfl⟩
      | ok r =>
        obtain ⟨a, k'⟩ := r
        rw [hmove] at hend
        obtain ⟨hosts, halike⟩ := h.changeSizes hst hs ha hd hf hend.2
        refine ⟨hosts, fun b hb c slot hapart => halike b hb c slot fun hc => ?_⟩
        rw [List.getElem?_set, if_neg fun he => hapart hc (UInt32.toNat_inj.mp he)]

/-- A size map gets a new slot, if ids are left. -/
theorem add (hids : (st.sizes.add.start t).1 ≠ refuse .exhausted) :
    (st.sizes.add.start t).2.Hosts size s n storages := by
  have hatt := ((h.housed st hst).attached).2
  have hd := SizeMap.add_lasts Drafted.lasting st.sizes t h.drafted
  obtain ⟨o, ho⟩ := h.sizes hst
  cases o with
  | none =>
    obtain ⟨cause, hstart⟩ := SizeMap.add_unseen hatt h.ready.based ho
    rw [hstart]
    exact h
  | some ns =>
    obtain ⟨⟨x, hs⟩, hf⟩ := ho
    obtain ⟨t', hstart, ha, hshows⟩ :=
      ((SizeMap.shows_iff h.ample h.ready.pageSize).mpr hf).add hatt
    rw [hstart] at hids hd ⊢
    by_cases hlt : ns.length < UInt32.size
    · have hf' := (SizeMap.shows_iff h.ample (by rw [ha.mounted, h.ready.pageSize])).mp (hshows hlt)
      exact (h.changeSizes hst hs ha hd hf hf').1
    · rw [if_neg hlt] at hids
      exact absurd rfl hids

end

/-! ## Files made and deleted -/

section

variable (h : t.Hosts size s n storages)

include h

/-- The next file has no name yet. -/
theorem not_carries_next (hvalid : t.mounted.volume.catalog.nextId ≠ FileId.none) (x : String) :
    ¬ t.operation.Carries s t.mounted.volume.catalog.nextId x := by
  rintro (hc | hn)
  · exact UInt32.lt_irrefl _ (h.ready.based.below _ hc)
  · rw [(h.ready.next_new hvalid).1] at hn
    cases hn

/-- A file was added under a free name and filled as the name says. -/
theorem gains (hroom : t.mounted.volume.catalog.nextId.toNat + 1 < UInt32.size)
    (hfree : (Transaction.fileExists x).Gives t false t)
    (ha : Alters t.mounted.volume.catalog.nextId (t.withFile x) t') (hd : t'.Drafted)
    (hf : t'.Finds t.mounted.volume.catalog.nextId [] (Cluster.Fills size n x)) :
    t'.Hosts size s n storages ∧
      t'.mounted.volume.catalog.nextId = t.mounted.volume.catalog.nextId + 1 ∧
      ∀ f y, t'.operation.Carries s f y ↔
        t.operation.Carries s f y ∨ f = t.mounted.volume.catalog.nextId ∧ y = x := by
  obtain ⟨hlt, -⟩ := Shelved.lt_next hroom
  have hvalid := FileId.ne_none_of_lt hlt
  obtain ⟨-, -, -, hno⟩ := h.ready.next_new hvalid
  have hgain := h.ready.gains hvalid hfree ha hf
  have hcarries (f : FileId) (y : String) : t'.operation.Carries s f y ↔
      t.operation.Carries s f y ∨ f = t.mounted.volume.catalog.nextId ∧ y = x := by
    simp only [Operation.Carries, ha.created, withFile, List.mem_append, List.mem_singleton, Prod.mk.injEq]
    tauto
  refine ⟨⟨hgain.ready, h.ample, hd, fun {g y} hg => ?_, fun st hst => (h.housed st hst).mono ?_ fun g hg y hy => ?_⟩,
    hgain.next, hcarries⟩
  · rcases hgain.sees.mp hg with hg | ⟨rfl, rfl⟩
    · exact (hgain.leaves fun he => hno y (he ▸ hg)).finds (h.filled hg)
    · rw [hgain.held]
      exact hf
  · rw [hgain.next]
    exact UInt32.le_of_lt hlt
  · refine ((hcarries g y).mp hy).resolve_right fun he => ?_
    exact UInt32.lt_irrefl _ (he.1 ▸ hg)

/-- A file is deleted, or nothing happens. -/
theorem deleteFile (f : FileId) : ((Transaction.deleteFile f).start t).2.Hosts size s n storages := by
  have hd := Transaction.deleteFile_keeps f t h.drafted
  by_cases hs : ∃ x, t.operation.Sees s f x
  · obtain ⟨x, hs⟩ := hs
    obtain ⟨hg, hready, hsees⟩ := h.ready.deleteFile hs
    rw [hg.eq] at hd ⊢
    refine ⟨hready, h.ample, hd, fun {g y} hg => ?_, fun st hst => (h.housed st hst).mono (UInt32.le_refl _) ?_⟩
    · obtain ⟨hg, hne⟩ := (hsees g y).mp hg
      exact (Leaves.withoutFile hne).finds (h.filled hg)
    · rintro g - y (hc | hn)
      · exact .inl (List.mem_of_mem_filter hc)
      · exact .inr hn
  · rw [Transaction.deleteFile, Task.start_bind, h.ready.based.pageCount_none (not_exists.mp hs)]
    exact h

/-- The tree of a cluster is made if its name is free. -/
theorem createTree (hroom : t.mounted.volume.catalog.nextId.toNat + 1 < UInt32.size) (cluster : ClusterId) :
    (∃ cause, (Cluster.storage cluster).tree.create.start t = (.error cause, t)) ∨
    ∃ t', (Cluster.storage cluster).tree.create.Gives t
        ((Cluster.storage cluster).tree.attached t.mounted.volume.catalog.nextId) t' ∧
      t'.Hosts size s n storages ∧
      t'.mounted.volume.catalog.nextId = t.mounted.volume.catalog.nextId + 1 ∧
      ∀ f y, t'.operation.Carries s f y ↔ t.operation.Carries s f y ∨
        f = t.mounted.volume.catalog.nextId ∧ y = Cluster.treeName cluster := by
  obtain ⟨known, hknown, -⟩ := h.ready.based.fileExists (Cluster.treeName cluster)
  cases known with
  | true => exact .inl (Tree.create_taken hknown)
  | false =>
    obtain ⟨hlt, -⟩ := Shelved.lt_next hroom
    obtain ⟨-, hdel, hdraft, -⟩ := h.ready.next_new (FileId.ne_none_of_lt hlt)
    obtain ⟨t', hg, ha, hf⟩ := Tree.create_finds (n := n) h.ample h.ready.pageSize hknown hdel hdraft
    have hd := Tree.create_lasts Drafted.lasting (Cluster.storage cluster).tree (addFile_keeps _ t h.drafted)
    rw [hg.eq] at hd
    exact .inr ⟨t', hg, h.gains hroom hknown ha hd (hf.imp fun _ hp => ⟨cluster, .inl ⟨rfl, [], hp⟩⟩)⟩

/-- And so is the size map. -/
theorem createSizes (hroom : t.mounted.volume.catalog.nextId.toNat + 1 < UInt32.size) (cluster : ClusterId) :
    (∃ cause, (Cluster.storage cluster).sizes.create.start t = (.error cause, t)) ∨
    ∃ t', (Cluster.storage cluster).sizes.create.Gives t
        ((Cluster.storage cluster).sizes.attached t.mounted.volume.catalog.nextId) t' ∧
      t'.Hosts size s n storages ∧
      t'.mounted.volume.catalog.nextId = t.mounted.volume.catalog.nextId + 1 ∧
      ∀ f y, t'.operation.Carries s f y ↔ t.operation.Carries s f y ∨
        f = t.mounted.volume.catalog.nextId ∧ y = Cluster.sizesName cluster := by
  obtain ⟨known, hknown, -⟩ := h.ready.based.fileExists (Cluster.sizesName cluster)
  cases known with
  | true => exact .inl (SizeMap.create_taken hknown)
  | false =>
    obtain ⟨hlt, -⟩ := Shelved.lt_next hroom
    obtain ⟨-, hdel, hdraft, -⟩ := h.ready.next_new (FileId.ne_none_of_lt hlt)
    obtain ⟨t', hg, ha, hf⟩ := SizeMap.create_finds h.ample h.ready.pageSize hknown hdel hdraft
    have hd := SizeMap.create_lasts Drafted.lasting (Cluster.storage cluster).sizes (addFile_keeps _ t h.drafted)
    rw [hg.eq] at hd
    exact .inr ⟨t', hg, h.gains hroom hknown ha hd (hf.imp fun _ hp => ⟨cluster, .inr ⟨rfl, [], hp⟩⟩)⟩

end

end Hosts

end Transaction

end RefStore
