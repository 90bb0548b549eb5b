import RefStore.Proofs.LoadedClusters

/-!
# Stores that answer alike

Volumes that serve one stock read alike, whatever pages they have in memory. So two stores that register
the clusters of the same files answer alike, about a cluster and about the collection that a pointer leads
to, though their storages may be numbered differently. Main statements: `Mounted.Serves.readAlike`,
`Store.Registers.answers_cluster`, `Store.Registers.answers`.
-/

namespace RefStore

variable {α β ε : Type} {size n n' : Nat} {s : Stock} {m m' : Mounted} {st st' : Store}

/-- What can be asked of a collection, by the kind of answer. -/
inductive Collection.Question : Type → Type where
  | get (r : RecordRef) : Question (Option Int32)
  | entries : Question (List (RecordRef × Int32))
  | first : Question (Option RecordRef)
  | last : Question (Option RecordRef)
  | size : Question Int32

def Collection.Question.ask (c : Collection) : {α : Type} → Question α → Task Workspace CollectionError α
  | _, .get r => c.get r
  | _, .entries => c.entries
  | _, .first => c.first
  | _, .last => c.last
  | _, .size => c.size

/-- What can be asked of a cluster. -/
inductive ClusterStorage.Question : Type → Type where
  | entryCount : Question UInt64
  | firstKey : Question (Option Key)
  | lastKey : Question (Option Key)
  | bucketCount : Question Nat

def ClusterStorage.Question.ask (b : ClusterStorage) : {α : Type} → Question α → Task Workspace CollectionError α
  | _, .entryCount => Workspace.onTree b.tree.entryCount
  | _, .firstKey => Workspace.onTree b.tree.firstKey
  | _, .lastKey => Workspace.onTree b.tree.lastKey
  | _, .bucketCount => Workspace.onSizes b.sizes.bucketCount

/-! ## Volumes of one stock -/

/-- Whatever pages they have in memory, volumes of one stock show the same pages. -/
theorem Mounted.Serves.readAlike (hv : s.Sealed) :
    ReadAlike fun m m' => m.Serves size s ∧ m'.Serves size s where
  pageSize m m' h := h.1.pageSize.trans h.2.pageSize.symm
  idOf? m m' h name := by
    refine Option.ext fun f => ?_
    rw [h.1.idOf?_eq_some, h.2.idOf?_eq_some]
  pageCount id m m' h := by
    obtain ⟨h, h'⟩ := h
    cases hid : s.names id with
    | none =>
      rw [h.pageCount_none hid, h'.pageCount_none hid]
      exact ⟨rfl, h, h'⟩
    | some x =>
      rw [(h.pageCount hid).eq, (h'.pageCount hid).eq]
      exact ⟨rfl, h, h'⟩
  loadPage id i m m' h := by
    obtain ⟨h, h'⟩ := h
    cases hid : s.names id with
    | none =>
      rw [h.loadPage_none hid, h'.loadPage_none hid]
      exact ⟨rfl, h, h'⟩
    | some x =>
      obtain ⟨f, hf, -⟩ := h.file hid
      obtain ⟨f', hf', -⟩ := h'.file hid
      cases hp : (s.pages id)[i.toNat]? with
      | none =>
        have hle := List.getElem?_eq_none_iff.mp hp
        rw [h.loadPage_outside hf hle, h'.loadPage_outside hf' hle]
        exact ⟨rfl, h, h'⟩
      | some p =>
        have hshown (f : OpenFile) : f.shown i p = .ok p := by
          rw [OpenFile.shown, hv hid p (List.mem_of_getElem? hp)]
          split <;> rfl
        obtain ⟨m₁, hload, h₁, -⟩ := h.loadPage_start hf hp
        obtain ⟨m₂, hload', h₂, -⟩ := h'.loadPage_start hf' hp
        rw [hload, hload', hshown, hshown]
        exact ⟨rfl, h₁, h₂⟩

/-! ## Storages of the same files -/

/-- What is read from a tree or a size map is told by its file. -/
structure ClusterStorage.SameFiles (b b' : ClusterStorage) : Prop where
  tree : b'.tree.file = b.tree.file
  sizes : b'.sizes.file = b.sizes.file

theorem ClusterStorage.SameFiles.of_eq {b b' : ClusterStorage} (htree : b'.treeFile = b.treeFile)
    (hsizes : b'.sizesFile = b.sizesFile) (hatt : b.tree.component.isAttached) (hatt' : b.sizes.component.isAttached) :
    b.SameFiles b' := by
  have htree' : b'.tree.component.file = b.tree.component.file := htree
  have hsizes' : b'.sizes.component.file = b.sizes.component.file := hsizes
  constructor
  · rw [Tree.file, Tree.file, if_pos hatt, htree', if_pos (by rwa [Component.isAttached, htree'])]
  · rw [SizeMap.file, SizeMap.file, if_pos hatt', hsizes', if_pos (by rwa [Component.isAttached, hsizes'])]

namespace Store

section

variable (h : st.engine.mounted.Serves size s) (h' : st'.engine.mounted.Serves size s) (hv : s.Sealed)

include h h' hv

/-- A task that only reads gives the same in the views of both stores. -/
theorem part_eq {u u' : Task Transaction ε α} (hsame : u' = u) (f : ε → CollectionError)
    (hu : ∀ {R}, Mounted.ReadAlike R → u.Agrees (Transaction.Beside R)) :
    ((Task.onPart (u'.mapError f) : Task Workspace CollectionError α).start ⟨st', .none, []⟩).1 =
      ((Task.onPart (u.mapError f) : Task Workspace CollectionError α).start ⟨st, .none, []⟩).1 := by
  obtain ⟨hread, -⟩ := hu (Mounted.Serves.readAlike hv) ⟨st'.engine.mounted, .none⟩ ⟨st.engine.mounted, .none⟩
    ⟨⟨h', h⟩, rfl⟩
  rw [hsame, Task.start_onPart, Task.start_onPart, Task.start_mapError, Task.start_mapError]
  exact congrArg (Checked.mapError f) hread

theorem map_eq {u u' : Task Transaction ε α} (hsame : u' = u) (f : ε → CollectionError)
    (hu : ∀ {R}, Mounted.ReadAlike R → u.Agrees (Transaction.Beside R)) (g : α → β) :
    ((do return g (← Task.onPart (u'.mapError f)) : Task Workspace CollectionError β).start ⟨st', .none, []⟩).1 =
      ((do return g (← Task.onPart (u.mapError f)) : Task Workspace CollectionError β).start ⟨st, .none, []⟩).1 := by
  have hpart := part_eq h h' hv hsame f hu
  rw [Task.start_bind, Task.start_bind]
  rcases hr : (Task.onPart (u'.mapError f) : Task Workspace CollectionError α).start ⟨st', .none, []⟩ with ⟨r, w⟩
  rcases hr' : (Task.onPart (u.mapError f) : Task Workspace CollectionError α).start ⟨st, .none, []⟩ with ⟨r', w'⟩
  rw [hr, hr'] at hpart
  obtain rfl : r = r' := hpart
  cases r <;> rfl

variable {b b' : ClusterStorage} (hfiles : b.SameFiles b')

include hfiles

theorem asked_cluster (q : ClusterStorage.Question α) :
    ((q.ask b').start ⟨st', .none, []⟩).1 = ((q.ask b).start ⟨st, .none, []⟩).1 := by
  cases q with
  | entryCount =>
    exact part_eq h h' hv (by rw [Tree.entryCount, Tree.entryCount, hfiles.tree]) _
      fun hR => Tree.entryCount_agrees hR _
  | firstKey =>
    exact part_eq h h' hv (by rw [Tree.firstKey, Tree.firstKey, hfiles.tree]) _ fun hR => Tree.firstKey_agrees hR _
  | lastKey =>
    exact part_eq h h' hv (by rw [Tree.lastKey, Tree.lastKey, hfiles.tree]) _ fun hR => Tree.lastKey_agrees hR _
  | bucketCount =>
    exact part_eq h h' hv (by rw [SizeMap.bucketCount, SizeMap.bucketCount, hfiles.sizes]) _
      fun hR => SizeMap.bucketCount_agrees hR _

theorem asked_collection (c c' : Collection) (hp : c'.pointer = c.pointer)
    (hb : st.registry.storages[c.storage]? = some b) (hb' : st'.registry.storages[c'.storage]? = some b')
    (q : Collection.Question α) : ((q.ask c').start ⟨st', .none, []⟩).1 = ((q.ask c).start ⟨st, .none, []⟩).1 := by
  have hat {c : Collection} {st : Store} {b : ClusterStorage} (hb : st.registry.storages[c.storage]? = some b)
      {γ : Type} (f : ClusterStorage → Task Workspace CollectionError γ) :
      (Workspace.storageAt c.storage >>= f).start ⟨st, .none, []⟩ = (f b).start ⟨st, .none, []⟩ := by
    rw [Task.start_bind, Workspace.storageAt, (Task.Gives.state _).start_bind, hb]
    rfl
  have hscan (r : Tree.KeyRange) (limit : Option Nat) : b'.tree.scan r limit = b.tree.scan r limit := by
    rw [Tree.scan, Tree.scan, hfiles.tree]
  obtain ⟨id, p⟩ := c
  obtain ⟨id', p'⟩ := c'
  obtain rfl : p' = p := hp
  cases q with
  | get r =>
    show ((Workspace.storageAt id' >>= _).start _).1 = ((Workspace.storageAt id >>= _).start _).1
    rw [hat hb', hat hb]
    exact part_eq h h' hv (by rw [Tree.get, Tree.get, hfiles.tree]; rfl) _ fun hR => Tree.get_agrees hR _ _
  | entries =>
    show ((Workspace.storageAt id' >>= _).start _).1 = ((Workspace.storageAt id >>= _).start _).1
    rw [hat hb', hat hb]
    exact map_eq h h' hv (hscan _ _) _ (fun hR => Tree.scan_agrees hR _ _ _) _
  | first =>
    show ((Workspace.storageAt id' >>= _).start _).1 = ((Workspace.storageAt id >>= _).start _).1
    rw [hat hb', hat hb]
    exact map_eq h h' hv (by rw [Tree.firstKeyBetween, Tree.firstKeyBetween, hscan]; rfl) _
      (fun hR => Tree.firstKeyBetween_agrees hR _ _ _) _
  | last =>
    show ((Workspace.storageAt id' >>= _).start _).1 = ((Workspace.storageAt id >>= _).start _).1
    rw [hat hb', hat hb]
    exact map_eq h h' hv (by rw [Tree.lastKeyBetween, Tree.lastKeyBetween, hfiles.tree]; rfl) _
      (fun hR => Tree.lastKeyBetween_agrees hR _ _ _) _
  | size =>
    show ((Workspace.storageAt id' >>= _).start _).1 = ((Workspace.storageAt id >>= _).start _).1
    rw [hat hb', hat hb]
    exact part_eq h h' hv (by rw [SizeMap.count, SizeMap.count, hfiles.sizes]) _ fun hR => SizeMap.count_agrees hR _ _

end

/-! ## Stores with the clusters of the same files -/

namespace Registers

variable {dir dir' : Path} {place place' : Location} {cluster : ClusterId} {p : CollectionPointer}
  {b b' : ClusterStorage}

/-- A pointer to the tree of a cluster leads to the storage of that cluster. -/
theorem loads (h : Registers dir place size s n st) (hp : s.names p.file = some (Cluster.treeName p.cluster)) :
    ∃ id b, (loadCollection p).Gives st ⟨id, p⟩ st ∧ st.registry.storages[id]? = some b ∧
      st.registry.storage? p.cluster = some b := by
  obtain ⟨b, hb, hc, -, -⟩ := h.matched.storage hp
  obtain ⟨id, hid, hb⟩ := Option.bind_eq_some_iff.mp hb
  have hregistered : st.registry.idFor? p = some id := by simp [Registry.idFor?, hid, hb, hc]
  refine ⟨id, b, ?_, hb, ?_⟩
  · refine (checkAccess_of_allowed h.allowed).bind ((Task.Gives.state st).bind ?_)
    rw [hregistered]
    exact .pure _ st
  · rw [Registry.storage?, Registry.registeredId?, h.matched.clusters.mpr hp, Option.bind_some, hid,
      Option.bind_some, hb]

section

variable (h : Registers dir place size s n st) (h' : Registers dir' place' size s n' st')

include h h'

theorem sameFiles (hb : st.registry.storage? cluster = some b) (hb' : st'.registry.storage? cluster = some b') :
    b.SameFiles b' := by
  obtain ⟨hmem, htree, hsizes⟩ := h.storage_gives hb
  obtain ⟨-, htree', hsizes'⟩ := h'.storage_gives hb'
  obtain ⟨hatt, hatt'⟩ := (h.houses.housed b hmem).attached
  exact .of_eq (h.houses.serves.inj htree' htree) (h.houses.serves.inj hsizes' hsizes) hatt hatt'

/-- Both have the storage of each cluster that has a tree, and it answers alike. -/
theorem answers_cluster (hf : ∃ f, s.names f = some (Cluster.treeName cluster)) : ∃ b b',
    st.registry.storage? cluster = some b ∧ st'.registry.storage? cluster = some b' ∧
      ∀ {α : Type} (q : ClusterStorage.Question α),
        ((view (q.ask b')).start st').1 = ((view (q.ask b)).start st).1 := by
  obtain ⟨f, hf⟩ := hf
  obtain ⟨_, b, -, -, hb⟩ := h.loads (p := ⟨f, cluster, 0, 0⟩) hf
  obtain ⟨_, b', -, -, hb'⟩ := h'.loads (p := ⟨f, cluster, 0, 0⟩) hf
  refine ⟨b, b', hb, hb', fun q => ?_⟩
  rw [view_start h'.usable, view_start h.usable]
  exact asked_cluster h.houses.serves h'.houses.serves h.houses.sealed (h.sameFiles h' hb hb') q

/-- A pointer to the tree of a cluster leads to collections of both, which answer alike. -/
theorem answers (hp : s.names p.file = some (Cluster.treeName p.cluster)) : ∃ c c',
    (loadCollection p).Gives st c st ∧ (loadCollection p).Gives st' c' st' ∧
      ∀ {α : Type} (q : Collection.Question α),
        ((view (q.ask c')).start st').1 = ((view (q.ask c)).start st).1 := by
  obtain ⟨id, b, hload, hid, hb⟩ := h.loads hp
  obtain ⟨id', b', hload', hid', hb'⟩ := h'.loads hp
  refine ⟨_, _, hload, hload', fun q => ?_⟩
  rw [view_start h'.usable, view_start h.usable]
  exact asked_collection h.houses.serves h'.houses.serves h.houses.sealed (h.sameFiles h' hb hb') ⟨id, p⟩ ⟨id', p⟩
    rfl hid hid' q

end

end Registers

end Store

end RefStore
