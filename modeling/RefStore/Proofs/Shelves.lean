import RefStore.Proofs.FileContents
import RefStore.Proofs.Numerals

/-!
# Shelves

The storage of a cluster is a shelf: the entries of its tree and the numbers of its size map. A
transaction keeps shelves in files of their own, and sees no other files. Main statements:
`Shelved.changeTree`, `Shelved.changeSizes`, `Shelved.add`, `Shelved.drop` and `Shelved.commit`.
-/

namespace RefStore

/-! ## Names of files -/

namespace Cluster

/-- The names of the tree and of the size map of a cluster. -/
def treeName (cluster : ClusterId) : String := (storage cluster).tree.fileName

def sizesName (cluster : ClusterId) : String := (storage cluster).sizes.fileName

theorem toList_treeName (cluster : ClusterId) :
    (treeName cluster).toList = (componentName cluster).toList ++ Tree.extension.toList :=
  String.toList_append

theorem toList_sizesName (cluster : ClusterId) :
    (sizesName cluster).toList = (componentName cluster).toList ++ SizeMap.extension.toList :=
  String.toList_append

theorem componentName_injective : Function.Injective componentName := by
  intro a b h
  have hlist := congrArg String.toList h
  rw [componentName, componentName, String.toList_append, String.toList_append] at hlist
  have hdigits := List.append_cancel_left hlist
  rw [String.toList_ofList, String.toList_ofList] at hdigits
  exact Int32.toInt_inj.mp (Decimal.ofInt_injective hdigits)

theorem treeName_injective : Function.Injective treeName := by
  intro a b h
  have hlist := congrArg String.toList h
  rw [toList_treeName, toList_treeName] at hlist
  exact componentName_injective (String.toList_inj.mp (List.append_cancel_right hlist))

theorem sizesName_injective : Function.Injective sizesName := by
  intro a b h
  have hlist := congrArg String.toList h
  rw [toList_sizesName, toList_sizesName] at hlist
  exact componentName_injective (String.toList_inj.mp (List.append_cancel_right hlist))

theorem treeName_ne_sizesName (a b : ClusterId) : treeName a ≠ sizesName b := by
  intro h
  have hlist := congrArg String.toList h
  rw [toList_treeName, toList_sizesName] at hlist
  exact absurd (List.append_inj_right' hlist (by decide)) (by decide)

end Cluster

/-! ## Storages -/

namespace ClusterStorage

/-- The files of the tree and of the size map. -/
abbrev treeFile (st : ClusterStorage) : FileId := st.tree.component.file

abbrev sizesFile (st : ClusterStorage) : FileId := st.sizes.component.file

end ClusterStorage

/-- Storages with files of their own, that were handed out before. -/
structure Filed (next : FileId) (storages : List ClusterStorage) : Prop where
  below : ∀ {id : StorageId} {st : ClusterStorage}, storages[id]? = some st → st.treeFile < next ∧ st.sizesFile < next
  apart : ∀ {i j : StorageId} {st st' : ClusterStorage}, storages[i]? = some st → storages[j]? = some st' →
    (st.treeFile = st'.treeFile → i = j) ∧ (st.sizesFile = st'.sizesFile → i = j) ∧
      st.treeFile ≠ st'.sizesFile

namespace Filed

variable {next next' : FileId} {storages : List ClusterStorage} {st : ClusterStorage} {id : StorageId}

theorem empty (next : FileId) : Filed next [] := ⟨by simp, by simp⟩

theorem mono (h : Filed next storages) (hle : next ≤ next') : Filed next' storages :=
  ⟨fun hst => ⟨UInt32.lt_of_lt_of_le (h.below hst).1 hle, UInt32.lt_of_lt_of_le (h.below hst).2 hle⟩,
    h.apart⟩

/-- One more storage with new files. -/
theorem append (h : Filed next storages) (htree : next ≤ st.treeFile) (hsizes : next ≤ st.sizesFile)
    (hne : st.treeFile ≠ st.sizesFile) (htree' : st.treeFile < next') (hsizes' : st.sizesFile < next') :
    Filed next' (storages ++ [st]) := by
  have hcases {i : Nat} {x : ClusterStorage} (hx : (storages ++ [st])[i]? = some x) :
      storages[i]? = some x ∧ x.treeFile < next ∧ x.sizesFile < next ∨ i = storages.length ∧ x = st := by
    rcases Nat.lt_or_ge i storages.length with hi | hi
    · rw [List.getElem?_append_left hi] at hx
      exact .inl ⟨hx, h.below hx⟩
    · rw [List.getElem?_append_right hi] at hx
      have hlt := (List.getElem?_eq_some_iff.mp hx).1
      rw [List.length_singleton] at hlt
      exact .inr ⟨by omega, List.mem_singleton.mp (List.mem_of_getElem? hx)⟩
  have hlt {a b : FileId} (ha : a < next) (hb : next ≤ b) : a ≠ b := fun he =>
    UInt32.lt_irrefl a (UInt32.lt_of_lt_of_le ha (he ▸ hb))
  refine ⟨fun hx => ?_, fun {i j x y} hx hy => ?_⟩
  · rcases hcases hx with ⟨-, ht, hs⟩ | ⟨-, rfl⟩
    · exact ⟨UInt32.lt_trans (UInt32.lt_of_lt_of_le ht htree) htree',
        UInt32.lt_trans (UInt32.lt_of_lt_of_le hs htree) htree'⟩
    · exact ⟨htree', hsizes'⟩
  · rcases hcases hx with ⟨hx, hxt, hxs⟩ | ⟨rfl, rfl⟩ <;> rcases hcases hy with ⟨hy, hyt, hys⟩ | ⟨rfl, rfl⟩
    · exact h.apart hx hy
    · exact ⟨fun he => absurd he (hlt hxt htree), fun he => absurd he (hlt hxs hsizes), hlt hxt hsizes⟩
    · exact ⟨fun he => absurd he.symm (hlt hyt htree), fun he => absurd he.symm (hlt hys hsizes),
        (hlt hys htree).symm⟩
    · exact ⟨fun _ => rfl, fun _ => rfl, hne⟩

theorem attached (h : Filed next storages) (hst : storages[id]? = some st) :
    st.tree.component.isAttached ∧ st.sizes.component.isAttached := by
  obtain ⟨ht, hs⟩ := h.below hst
  exact ⟨decide_eq_true (FileId.ne_none_of_lt ht), decide_eq_true (FileId.ne_none_of_lt hs)⟩

end Filed

/-! ## Shelves of a transaction -/

/-- The storage of a cluster, with the entries of its tree and the numbers of its size map. -/
structure Shelf where
  storage : ClusterStorage
  entries : List Entry
  numbers : List Int32

/-- The shelves in use, by the numbers of their storages. -/
abbrev Shelves := StorageId → Option Shelf

variable {size n n' : Nat} {s : Stock} {t t' : Transaction} {sh sh' : Shelf} {shelves : Shelves}
  {storages : List ClusterStorage} {id : StorageId}

/-- A shelf whose files a transaction sees and finds as they should be. -/
structure Shelf.Stands (size : Nat) (s : Stock) (puts : Nat) (t : Transaction) (sh : Shelf) : Prop where
  seesTree : ∃ x, t.operation.Sees s sh.storage.treeFile x
  seesSizes : ∃ x, t.operation.Sees s sh.storage.sizesFile x
  tree : t.Finds sh.storage.treeFile (s.held sh.storage.treeFile) (Tree.Written size sh.entries puts)
  sizes : t.Finds sh.storage.sizesFile (s.held sh.storage.sizesFile) (SizeMap.Written size sh.numbers)

theorem Transaction.Finds.imp {file : FileId} {base : List Page} {P Q : List Page → Prop}
    (h : t.Finds file base P) (hPQ : ∀ ps, P ps → Q ps) : t.Finds file base Q := by
  obtain ⟨pages, hp, hP⟩ := h
  exact ⟨pages, hp, hPQ pages hP⟩

theorem Shelf.Stands.leaves (h : sh.Stands size s n t)
    (htree : Transaction.Leaves sh.storage.treeFile t t')
    (hsizes : Transaction.Leaves sh.storage.sizesFile t t')
    (hsees : ∀ {f x}, f = sh.storage.treeFile ∨ f = sh.storage.sizesFile → t.operation.Sees s f x →
      t'.operation.Sees s f x) (hn : n ≤ n') : sh.Stands size s n' t' where
  seesTree := h.seesTree.imp fun _ hx => hsees (.inl rfl) hx
  seesSizes := h.seesSizes.imp fun _ hx => hsees (.inr rfl) hx
  tree := (htree.finds h.tree).imp fun _ hp => hp.mono hn
  sizes := hsizes.finds h.sizes

/-- A transaction with some shelves and no other files. -/
structure Shelved (size : Nat) (s : Stock) (t : Transaction) (storages : List ClusterStorage)
    (shelves : Shelves) (puts : Nat) : Prop where
  ready : t.Ready size s
  ample : Tree.Ample size
  filed : Filed t.mounted.volume.catalog.nextId storages
  stored : ∀ {id sh}, shelves id = some sh → storages[id]? = some sh.storage
  stands : ∀ {id sh}, shelves id = some sh → sh.Stands size s puts t
  seen : ∀ {f x}, t.operation.Sees s f x → ∃ id sh, shelves id = some sh ∧
    (f = sh.storage.treeFile ∧ x = Cluster.treeName sh.storage.cluster ∨
      f = sh.storage.sizesFile ∧ x = Cluster.sizesName sh.storage.cluster)

namespace Shelved

theorem mono (h : Shelved size s t storages shelves n) (hn : n ≤ n') :
    Shelved size s t storages shelves n' :=
  ⟨h.ready, h.ample, h.filed, h.stored, fun hid =>
    ⟨(h.stands hid).seesTree, (h.stands hid).seesSizes, (h.stands hid).tree.imp fun _ hp => hp.mono hn,
      (h.stands hid).sizes⟩, h.seen⟩

/-- A storage whose shelf is gone has a tree that is not seen. -/
theorem unseen (h : Shelved size s t storages shelves n) {st : ClusterStorage}
    (hst : storages[id]? = some st) (hid : shelves id = none) (x : String) :
    ¬ t.operation.Sees s st.treeFile x := by
  intro hx
  obtain ⟨id', sh, hsh, he | he⟩ := h.seen hx
  · have heq := (h.filed.apart hst (h.stored hsh)).1 he.1
    rw [heq, hsh] at hid
    cases hid
  · exact (h.filed.apart hst (h.stored hsh)).2.2 he.1

/-- One file of a shelf is changed. -/
theorem change {f : FileId} (h : Shelved size s t storages shelves n) (hid : shelves id = some sh)
    (hst : sh'.storage = sh.storage) (hf : f = sh.storage.treeFile ∨ f = sh.storage.sizesFile)
    (ha : Transaction.Alters f t t') (hn : n ≤ n') (hstands : sh'.Stands size s n' t') :
    Shelved size s t' storages (Function.update shelves id (some sh')) n' := by
  have hsees {g : FileId} {x : String} : t'.operation.Sees s g x ↔ t.operation.Sees s g x :=
    Transaction.Ready.sees_alters ha
  refine ⟨?_, h.ample, by rw [ha.mounted]; exact h.filed, fun {i x} hx => ?_, fun {i x} hx => ?_,
    fun {g x} hg => ?_⟩
  · have hold := h.stands hid
    rcases hf with rfl | rfl
    · obtain ⟨x, hx⟩ := hold.seesTree
      exact h.ready.alter hx ha (hst ▸ hstands.tree)
    · obtain ⟨x, hx⟩ := hold.seesSizes
      exact h.ready.alter hx ha (hst ▸ hstands.sizes)
  · rcases update_cases hx with ⟨rfl, he⟩ | ⟨-, hx⟩
    · cases he
      rw [hst]
      exact h.stored hid
    · exact h.stored hx
  · rcases update_cases hx with ⟨rfl, he⟩ | ⟨hne, hx⟩
    · cases he
      exact hstands
    · -- the files of another shelf are left alone
      obtain ⟨htree, hsizes, hts⟩ := h.filed.apart (h.stored hx) (h.stored hid)
      have hst' := (h.filed.apart (h.stored hid) (h.stored hx)).2.2
      have hne₁ : x.storage.treeFile ≠ f := by
        rcases hf with rfl | rfl
        · exact fun he => hne (htree he)
        · exact hts
      have hne₂ : x.storage.sizesFile ≠ f := by
        rcases hf with rfl | rfl
        · exact hst'.symm
        · exact fun he => hne (hsizes he)
      exact (h.stands hx).leaves (.alters ha hne₁) (.alters ha hne₂) (fun _ hs => hsees.mpr hs) hn
  · obtain ⟨i, x', hx', hg'⟩ := h.seen (hsees.mp hg)
    by_cases hi : i = id
    · subst hi
      rw [hid] at hx'
      obtain rfl := Option.some.inj hx'
      exact ⟨i, sh', Function.update_self .., by rwa [hst]⟩
    · exact ⟨i, x', by rwa [Function.update_of_ne hi], hg'⟩

theorem changeTree (h : Shelved size s t storages shelves n) (hid : shelves id = some sh)
    (ha : Transaction.Alters sh.storage.treeFile t t') (hn : n ≤ n') {es : List Entry}
    (hf : t'.Finds sh.storage.treeFile (s.held sh.storage.treeFile) (Tree.Written size es n')) :
    Shelved size s t' storages (Function.update shelves id (some { sh with entries := es })) n' := by
  have hold := h.stands hid
  have hne := (h.filed.apart (h.stored hid) (h.stored hid)).2.2
  have hsees {g : FileId} {x : String} : t'.operation.Sees s g x ↔ t.operation.Sees s g x :=
    Transaction.Ready.sees_alters ha
  refine h.change hid rfl (.inl rfl) ha hn (?_ : Shelf.Stands size s n' t' { sh with entries := es })
  exact ⟨hold.seesTree.imp fun _ hx => hsees.mpr hx, hold.seesSizes.imp fun _ hx => hsees.mpr hx, hf,
      (Transaction.Leaves.alters ha hne.symm).finds hold.sizes⟩

theorem changeSizes (h : Shelved size s t storages shelves n) (hid : shelves id = some sh)
    (ha : Transaction.Alters sh.storage.sizesFile t t') {ns : List Int32}
    (hf : t'.Finds sh.storage.sizesFile (s.held sh.storage.sizesFile) (SizeMap.Written size ns)) :
    Shelved size s t' storages (Function.update shelves id (some { sh with numbers := ns })) n := by
  have hold := h.stands hid
  have hne := (h.filed.apart (h.stored hid) (h.stored hid)).2.2
  have hsees {g : FileId} {x : String} : t'.operation.Sees s g x ↔ t.operation.Sees s g x :=
    Transaction.Ready.sees_alters ha
  refine h.change hid rfl (.inr rfl) ha (Nat.le_refl n)
    (?_ : Shelf.Stands size s n t' { sh with numbers := ns })
  exact ⟨hold.seesTree.imp fun _ hx => hsees.mpr hx, hold.seesSizes.imp fun _ hx => hsees.mpr hx,
      (Transaction.Leaves.alters ha hne).finds hold.tree, hf⟩

/-- A volume that serves the same files will do as well, and so will more storages. -/
theorem later {m m' : Mounted} {storages' : List ClusterStorage}
    (h : Shelved size s ⟨m, .none⟩ storages shelves n) (hs : m'.Serves size s)
    (hfiles : m'.volume.files = m.volume.files)
    (hfiled : Filed m'.volume.catalog.nextId storages')
    (hstored : ∀ {id : StorageId} {st : ClusterStorage}, storages[id]? = some st →
      storages'[id]? = some st) (hn : n ≤ n') (op : OperationId) :
    Shelved size s ⟨m', .fresh op⟩ storages' shelves n' := by
  have hleaves (f : FileId) : Transaction.Leaves f ⟨m, .none⟩ ⟨m', .fresh op⟩ :=
    ⟨congrArg (·[f]?) hfiles, by rw [hs.pageSize, ← h.ready.based.serves.pageSize], id, rfl, fun _ => rfl⟩
  have hloaded : m'.Loaded s := fun f x hx i hi => by
    rw [Mounted.Warm, hfiles]
    exact h.ready.loaded f x hx i hi
  exact ⟨.begun hs hloaded op, h.ample, hfiled, fun hid => hstored (h.stored hid),
    fun hid => (h.stands hid).leaves (hleaves _) (hleaves _) (fun _ hx => hx) hn, fun hx => h.seen hx⟩

/-- No file carries a name of a cluster without a shelf. -/
theorem free (h : Shelved size s t storages shelves n) {cluster : ClusterId}
    (hno : ∀ {id sh}, shelves id = some sh → sh.storage.cluster ≠ cluster) (f : FileId) :
    ¬ t.operation.Sees s f (Cluster.treeName cluster) ∧
      ¬ t.operation.Sees s f (Cluster.sizesName cluster) := by
  constructor
  · intro hf
    obtain ⟨id, sh, hid, ⟨-, he⟩ | ⟨-, he⟩⟩ := h.seen hf
    · exact hno hid (Cluster.treeName_injective he.symm)
    · exact Cluster.treeName_ne_sizesName _ _ he
  · intro hf
    obtain ⟨id, sh, hid, ⟨-, he⟩ | ⟨-, he⟩⟩ := h.seen hf
    · exact Cluster.treeName_ne_sizesName _ _ he.symm
    · exact hno hid (Cluster.sizesName_injective he.symm)

theorem lt_next {f : FileId} (h : f.toNat + 1 < UInt32.size) : f < f + 1 ∧ (f + 1).toNat = f.toNat + 1 :=
  FileId.lt_succ fun he => absurd (he ▸ h) (by decide)

/-- The files of a cluster are made for a new shelf. -/
theorem add (h : Shelved size s t storages shelves n) {cluster : ClusterId}
    (hroom : t.mounted.volume.catalog.nextId.toNat + 2 < UInt32.size)
    (hno : ∀ {id sh}, shelves id = some sh → sh.storage.cluster ≠ cluster) :
    ∃ tree sizes t₁ t₂, (Cluster.storage cluster).tree.create.Gives t tree t₁ ∧
      (Cluster.storage cluster).sizes.create.Gives t₁ sizes t₂ ∧
      t₂.mounted.volume.files = t.mounted.volume.files ∧
      t₂.mounted.volume.catalog.nextId.toNat = t.mounted.volume.catalog.nextId.toNat + 2 ∧
      t.mounted.volume.catalog.nextId ≤ tree.component.file ∧
      Shelved size s t₂ (storages ++ [⟨cluster, tree, sizes⟩])
        (Function.update shelves storages.length (some ⟨⟨cluster, tree, sizes⟩, [], []⟩)) n := by
  obtain ⟨hlt, hsucc⟩ := lt_next (f := t.mounted.volume.catalog.nextId) (by omega)
  obtain ⟨hlt', hsucc'⟩ := lt_next (f := t.mounted.volume.catalog.nextId + 1) (by omega)
  have hvalid := FileId.ne_none_of_lt hlt
  obtain ⟨-, hdel, hdraft, -⟩ := h.ready.next_new hvalid
  have hfree := h.ready.fileExists_false fun f => (h.free hno f).1
  obtain ⟨t₁, hg₁, ha₁, hf₁⟩ := Tree.create_finds (n := n) h.ample h.ready.pageSize hfree hdel hdraft
  have hgain₁ := h.ready.gains hvalid hfree ha₁ hf₁
  have hvalid₁ : t₁.mounted.volume.catalog.nextId ≠ FileId.none :=
    hgain₁.next ▸ FileId.ne_none_of_lt hlt'
  obtain ⟨-, hdel₁, hdraft₁, -⟩ := hgain₁.ready.next_new hvalid₁
  have hfree₁ : (Transaction.fileExists (Cluster.sizesName cluster)).Gives t₁ false t₁ := by
    refine hgain₁.ready.fileExists_false fun f hf => ?_
    rcases hgain₁.sees.mp hf with hf | ⟨-, he⟩
    · exact (h.free hno f).2 hf
    · exact Cluster.treeName_ne_sizesName _ _ he.symm
  obtain ⟨t₂, hg₂, ha₂, hf₂⟩ := SizeMap.create_finds h.ample hgain₁.ready.pageSize hfree₁ hdel₁ hdraft₁
  have hgain₂ := hgain₁.ready.gains hvalid₁ hfree₁ ha₂ hf₂
  rw [hgain₁.next] at hg₂ hf₂
  have hheld₂ := hgain₂.held
  rw [hgain₁.next] at hheld₂
  -- what there was before is as it was
  have hleaves {f : FileId} (hf : f < t.mounted.volume.catalog.nextId) : Transaction.Leaves f t t₂ := by
    have hne : f ≠ t.mounted.volume.catalog.nextId := fun he => UInt32.lt_irrefl f (by rwa [← he] at hf)
    have hne' : f ≠ t₁.mounted.volume.catalog.nextId := fun he =>
      UInt32.lt_irrefl f (UInt32.lt_trans hf (by rw [he, hgain₁.next]; exact hlt))
    exact (hgain₁.leaves hne).trans (hgain₂.leaves hne')
  have hapart : t.mounted.volume.catalog.nextId ≠ t₁.mounted.volume.catalog.nextId := fun he =>
    UInt32.lt_irrefl t.mounted.volume.catalog.nextId (by rw [← hgain₁.next, ← he] at hlt; exact hlt)
  have hnext : t₂.mounted.volume.catalog.nextId.toNat = t.mounted.volume.catalog.nextId.toNat + 2 := by
    rw [hgain₂.next, hgain₁.next, hsucc', hsucc]
  refine ⟨_, _, t₁, t₂, hg₁, hg₂, hgain₂.files.trans hgain₁.files, hnext, UInt32.le_refl _, hgain₂.ready, h.ample,
    ?_, fun {i x} hx => ?_, fun {i x} hx => ?_, fun {f x} hf => ?_⟩
  · rw [hgain₂.next, hgain₁.next]
    exact h.filed.append (UInt32.le_refl _) (UInt32.le_of_lt hlt) (hgain₁.next ▸ hapart)
      (UInt32.lt_trans hlt hlt') hlt'
  · rcases update_cases hx with ⟨rfl, he⟩ | ⟨-, hx⟩
    · cases he
      exact List.getElem?_concat_length
    · have hst := h.stored hx
      rw [List.getElem?_append_left (List.getElem?_eq_some_iff.mp hst).1]
      exact hst
  · rcases update_cases hx with ⟨rfl, he⟩ | ⟨-, hx⟩
    · cases he
      refine ⟨⟨_, hgain₂.sees.mpr (.inl (hgain₁.sees.mpr (.inr ⟨rfl, rfl⟩)))⟩,
        ⟨_, hgain₂.sees.mpr (.inr ⟨hgain₁.next.symm, rfl⟩)⟩, ?_, ?_⟩
      · show t₂.Finds t.mounted.volume.catalog.nextId (s.held t.mounted.volume.catalog.nextId) _
        rw [hgain₁.held]
        exact (hgain₂.leaves hapart).finds hf₁
      · show t₂.Finds (t.mounted.volume.catalog.nextId + 1) (s.held (t.mounted.volume.catalog.nextId + 1)) _
        rw [hheld₂]
        exact hf₂
    · obtain ⟨htree, hsizes⟩ := h.filed.below (h.stored hx)
      exact (h.stands hx).leaves (hleaves htree) (hleaves hsizes)
        (fun _ hs => hgain₂.sees.mpr (.inl (hgain₁.sees.mpr (.inl hs)))) (Nat.le_refl n)
  · rcases hgain₂.sees.mp hf with hf | ⟨rfl, rfl⟩
    · rcases hgain₁.sees.mp hf with hf | ⟨rfl, rfl⟩
      · obtain ⟨i, y, hy, hfy⟩ := h.seen hf
        have hi : i ≠ storages.length := Nat.ne_of_lt (List.getElem?_eq_some_iff.mp (h.stored hy)).1
        exact ⟨i, y, by rwa [Function.update_of_ne hi], hfy⟩
      · exact ⟨_, _, Function.update_self .., .inl ⟨rfl, rfl⟩⟩
    · exact ⟨_, _, Function.update_self .., .inr ⟨hgain₁.next, rfl⟩⟩

/-- The files of a shelf are deleted. -/
theorem drop (h : Shelved size s t storages shelves n) (hid : shelves id = some sh) :
    ∃ t₁ t₂, sh.storage.tree.delete.Gives t () t₁ ∧ sh.storage.sizes.delete.Gives t₁ () t₂ ∧
      t₂.mounted = t.mounted ∧
      Shelved size s t₂ storages (Function.update shelves id none) n := by
  obtain ⟨hatt, hatt'⟩ := h.filed.attached (h.stored hid)
  have hold := h.stands hid
  have hts := (h.filed.apart (h.stored hid) (h.stored hid)).2.2
  obtain ⟨x, hx⟩ := hold.seesTree
  obtain ⟨y, hy⟩ := hold.seesSizes
  obtain ⟨hg₁, hready₁, hsees₁⟩ := h.ready.deleteFile hx
  obtain ⟨hg₂, hready₂, hsees₂⟩ := hready₁.deleteFile ((hsees₁ _ _).mpr ⟨hy, hts.symm⟩)
  have hleaves {f : FileId} (hf : f ≠ sh.storage.treeFile) (hf' : f ≠ sh.storage.sizesFile) :=
    (Transaction.Leaves.withoutFile (t := t) hf).trans (.withoutFile hf')
  refine ⟨_, _, (Tree.Shows.file_gives hatt t).bind (hg₁.embed.mapError _),
    (SizeMap.Spreads.file_gives hatt' _).bind (hg₂.embed.mapError _), rfl, hready₂, h.ample, h.filed,
    fun hz => h.stored (update_none_eq_some.mp hz).2, fun {i z} hz => ?_, fun {f w} hf => ?_⟩
  · obtain ⟨hne, hz⟩ := update_none_eq_some.mp hz
    obtain ⟨htree, hsizes, hzs⟩ := h.filed.apart (h.stored hz) (h.stored hid)
    have hsz := (h.filed.apart (h.stored hid) (h.stored hz)).2.2
    have ht₁ : z.storage.treeFile ≠ sh.storage.treeFile := fun he => hne (htree he)
    have hs₂ : z.storage.sizesFile ≠ sh.storage.sizesFile := fun he => hne (hsizes he)
    refine (h.stands hz).leaves (hleaves ht₁ hzs) (hleaves hsz.symm hs₂) (fun hf hs => ?_) (Nat.le_refl n)
    rcases hf with rfl | rfl
    · exact (hsees₂ _ _).mpr ⟨(hsees₁ _ _).mpr ⟨hs, ht₁⟩, hzs⟩
    · exact (hsees₂ _ _).mpr ⟨(hsees₁ _ _).mpr ⟨hs, hsz.symm⟩, hs₂⟩
  · obtain ⟨hf, hne₂⟩ := (hsees₂ f w).mp hf
    obtain ⟨hf, hne₁⟩ := (hsees₁ f w).mp hf
    obtain ⟨i, z, hz, hfz⟩ := h.seen hf
    have hi : i ≠ id := by
      rintro rfl
      rw [hid] at hz
      obtain rfl := Option.some.inj hz
      rcases hfz with ⟨he, -⟩ | ⟨he, -⟩
      · exact hne₁ he
      · exact hne₂ he
    exact ⟨i, z, by rwa [Function.update_of_ne hi], hfz⟩

/-- A commit leaves the shelves as the operation has made them. -/
theorem commit {e e' : Engine} {op : Operation} (h : Shelved size s ⟨e.mounted, op⟩ storages shelves n)
    (hlog : e.journal.log.node = s.logNode) (hg : (Engine.commit op).Gives e () e') :
    ∃ s', e'.journal.log.node = s'.logNode ∧ Shelved size s' ⟨e'.mounted, .none⟩ storages shelves n := by
  obtain ⟨s', hs', hl', hlog', hnames, hfinds⟩ := h.ready.commit hlog hg
  have hsees {f : FileId} {x : String} : Operation.none.Sees s' f x ↔ op.Sees s f x := by
    rw [← hnames]
    simp [Operation.Sees, Operation.none, Operation.fresh]
  refine ⟨s', hlog', .begun hs' hl' 0, h.ample, h.filed.mono (Engine.commit_next hg), h.stored,
    fun {id sh} hid => ?_, fun hx => h.seen (hsees.mp hx)⟩
  obtain ⟨htree, hsizes, hft, hfs⟩ := h.stands hid
  refine ⟨htree.imp fun _ hx => hsees.mpr hx, hsizes.imp fun _ hx => hsees.mpr hx, ?_, ?_⟩
  · obtain ⟨x, hx⟩ := htree
    exact hfinds hx (Tree.Written.alike h.ample) hft
  · obtain ⟨x, hx⟩ := hsizes
    exact hfinds hx (SizeMap.Written.alike h.ample) hfs

end Shelved

end RefStore
