import RefStore.Proofs.MatchedRegistries

/-!
# Registered clusters with files

Every registered cluster has the files of its storage. That stays so where less is registered, where a
storage is registered with its files and where one is unregistered without them. A storage may be registered
before a rollback or after it, if no step to take back is about its cluster. Main statements:
`Registry.Includes.grounded`, `Registry.foldl_undo_register`.
-/

namespace RefStore

/-- The cluster and the tree file that a step to take back is about. -/
def Undo.entry? : Undo → Option (ClusterId × FileId)
  | .unregister c f => some (c, f)
  | .register c f _ => some (c, f)
  | .step _ => none

/-- A step to take back that is about a cluster without committed files among those with some names. -/
def Undo.Clear (kept names : FileId → Option String) (u : Undo) : Prop :=
  ∀ c f, u.entry? = some (c, f) → (∀ g, kept g = some (Cluster.treeName c) → names g = none) ∧
    ∀ x, kept f = some x → x = Cluster.treeName c

theorem Undo.Clear.mono {kept names names' : FileId → Option String} {u : Undo} (h : u.Clear kept names)
    (hn : ∀ {g x}, kept g = some x → names g = none → names' g = none) : u.Clear kept names' := fun c f hu =>
  ⟨fun g hg => hn hg ((h c f hu).1 g hg), (h c f hu).2⟩

namespace Registry

variable {r r' r'' : Registry} {names names' : FileId → Option String} {c : ClusterId} {f : FileId} {id : StorageId}
  {st : ClusterStorage} {u : Undo} {us : List Undo}

/-! ## Registered clusters and their files -/

/-- Every registered cluster has the files of its storage, among files with some names. -/
def Grounded (r : Registry) (names : FileId → Option String) : Prop :=
  ∀ (c : ClusterId) (f : FileId), r.clusters[c]? = some f → names f = some (Cluster.treeName c) ∧
    ∃ st, r.storageOf? f = some st ∧ st.cluster = c ∧ st.treeFile = f ∧
      names st.sizesFile = some (Cluster.sizesName c)

/-- The second registry has no other clusters registered than the first one. -/
structure Includes (r r' : Registry) : Prop where
  storages : r.storages <+: r'.storages
  clusters : ∀ {c : ClusterId} {f : FileId}, r'.clusters[c]? = some f →
    r.clusters[c]? = some f ∧ r'.registered[f]? = r.registered[f]?

namespace Includes

theorem refl (r : Registry) : r.Includes r := ⟨List.prefix_rfl, fun hc => ⟨hc, rfl⟩⟩

theorem trans (h : r.Includes r') (h' : r'.Includes r'') : r.Includes r'' :=
  ⟨h.storages.trans h'.storages, fun hc => by
    obtain ⟨hc, hr⟩ := h'.clusters hc
    exact ⟨(h.clusters hc).1, hr.trans (h.clusters hc).2⟩⟩

theorem counted (r : Registry) (n : CollectionId) : r.Includes { r with counter := n } :=
  ⟨List.prefix_rfl, fun hc => ⟨hc, rfl⟩⟩

theorem close (r : Registry) : r.Includes r.close := by
  refine ⟨List.prefix_rfl, ?_⟩
  simp [Registry.close]

theorem undo (h : r.Includes r') (u : Undo) : (r.undo u).Includes (r'.undo u) := by
  cases u with
  | unregister c f =>
    refine ⟨h.storages, fun {d g} hd => ?_⟩
    obtain ⟨hne, hd⟩ := lookup_erase_eq_some.mp hd
    obtain ⟨hc, hr⟩ := h.clusters hd
    refine ⟨lookup_erase_eq_some.mpr ⟨hne, hc⟩, ?_⟩
    simp only [Registry.undo, withdraw, lookup_erase, hr]
  | register c f id =>
    refine ⟨h.storages, fun {d g} hd => ?_⟩
    rcases lookup_insert_eq_some.mp hd with hd | ⟨hne, hd⟩
    · refine ⟨lookup_insert_eq_some.mpr (.inl hd), ?_⟩
      rw [hd.2, Registry.undo, Registry.undo, enroll, enroll, Std.TreeMap.getElem?_insert_self,
        Std.TreeMap.getElem?_insert_self]
    · obtain ⟨hc, hr⟩ := h.clusters hd
      refine ⟨lookup_insert_eq_some.mpr (.inr ⟨hne, hc⟩), ?_⟩
      simp only [Registry.undo, enroll, lookup_insert, hr]
  | step label => exact h

theorem foldl_undo (h : r.Includes r') (us : List Undo) :
    (us.foldl Registry.undo r).Includes (us.foldl Registry.undo r') := by
  induction us generalizing r r' with
  | nil => exact h
  | cons u us ih => exact ih (h.undo u)

/-- A storage with a file of its own is registered and unregistered again. -/
theorem register_withdraw (hf : ∀ c : ClusterId, r.clusters[c]? ≠ some st.treeFile) :
    r.Includes ((r.register st).undo (.unregister st.cluster st.treeFile)) := by
  refine ⟨List.prefix_append _ _, fun {c f} hc => ?_⟩
  obtain ⟨hne, hc⟩ := lookup_erase_eq_some.mp hc
  have hold : r.clusters[c]? = some f := (lookup_insert_of_ne hne).symm.trans hc
  have hne' : f ≠ st.treeFile := by
    rintro rfl
    exact hf c hold
  exact ⟨hold, (lookup_erase_of_ne hne').trans (lookup_insert_of_ne hne')⟩

/-- A storage is unregistered and registered again. -/
theorem withdraw_enroll (hc : r.clusters[c]? = some f) (hf : r.registered[f]? = some id) :
    r.Includes ((r.withdraw c f).undo (.register c f id)) := by
  refine ⟨List.prefix_rfl, fun {d g} hd => ?_⟩
  have halike := Alike.withdraw_enroll hc hf
  exact ⟨(halike.clusters d).symm.trans hd, halike.registered g⟩

theorem grounded (h : r.Includes r') (hg : r.Grounded names) : r'.Grounded names := by
  intro c f hc
  obtain ⟨hc, hr⟩ := h.clusters hc
  obtain ⟨htree, st, hst, hrest⟩ := hg c f hc
  refine ⟨htree, st, ?_, hrest⟩
  obtain ⟨id, hid, hst⟩ := Option.bind_eq_some_iff.mp hst
  obtain ⟨more, hmore⟩ := h.storages
  rw [storageOf?, hr, hid, Option.bind_some, ← hmore,
    List.getElem?_append_left (List.getElem?_eq_some_iff.mp hst).1]
  exact hst

end Includes

namespace Grounded

theorem mono (h : r.Grounded names) (hn : ∀ {f x}, names f = some x → names' f = some x) : r.Grounded names' := by
  intro c f hc
  obtain ⟨htree, st, hst, howner, hfile, hsizes⟩ := h c f hc
  exact ⟨hn htree, st, hst, howner, hfile, hn hsizes⟩

/-- A cluster without a storage is not registered. -/
theorem clusters_free (h : r.Grounded names) (hno : r.registeredId? c = none) : r.clusters[c]? = none := by
  rw [Option.eq_none_iff_forall_ne_some]
  intro f hf
  obtain ⟨-, st, hst, -⟩ := h c f hf
  obtain ⟨id, hid, -⟩ := Option.bind_eq_some_iff.mp hst
  rw [registeredId?, hf, Option.bind_some, hid] at hno
  cases hno

/-- What is found under a cluster is its storage. -/
theorem of_registeredId? (h : r.Grounded names) (hid : r.registeredId? c = some id)
    (hst : r.storages[id]? = some st) : st.cluster = c ∧ r.clusters[c]? = some st.treeFile ∧
      r.registered[st.treeFile]? = some id ∧ names st.treeFile = some (Cluster.treeName c) ∧
        names st.sizesFile = some (Cluster.sizesName c) := by
  obtain ⟨f, hf, hid⟩ := Option.bind_eq_some_iff.mp hid
  obtain ⟨htree, st', hst', hc, rfl, hsizes⟩ := h c f hf
  rw [storageOf?, hid, Option.bind_some, hst] at hst'
  obtain rfl := Option.some.inj hst'
  exact ⟨hc, hf, hid, htree, hsizes⟩

/-- A storage is registered that has its files. -/
theorem register (h : r.Grounded names) (htree : names st.treeFile = some (Cluster.treeName st.cluster))
    (hsizes : names st.sizesFile = some (Cluster.sizesName st.cluster)) : (r.register st).Grounded names := by
  intro c f hc
  rcases lookup_insert_eq_some.mp hc with ⟨rfl, rfl⟩ | ⟨hne, hc⟩
  · exact ⟨htree, st, storageOf?_register_self r st, rfl, rfl, hsizes⟩
  · obtain ⟨hname, s, hs, hrest⟩ := h c f hc
    refine ⟨hname, s, storageOf?_register_of_ne ?_ hs, hrest⟩
    rintro rfl
    exact hne (Cluster.treeName_injective (Option.some.inj (hname.symm.trans htree)))

/-- A storage is unregistered with its files. -/
theorem withdraw (h : r.Grounded names) (htree : names st.treeFile = some (Cluster.treeName st.cluster))
    (hsizes : names st.sizesFile = some (Cluster.sizesName st.cluster)) :
    (r.withdraw st.cluster st.treeFile).Grounded
      (Function.update (Function.update names st.treeFile none) st.sizesFile none) := by
  intro c f hc
  obtain ⟨hne, hc⟩ := lookup_erase_eq_some.mp hc
  obtain ⟨hname, s, hs, howner, hfile, hsname⟩ := h c f hc
  have hf : f ≠ st.treeFile := by
    rintro rfl
    exact hne (Cluster.treeName_injective (Option.some.inj (hname.symm.trans htree)))
  refine ⟨(Cluster.names_left htree hsizes hne (.inl rfl)).mpr hname, s, ?_, howner, hfile,
    (Cluster.names_left htree hsizes hne (.inr rfl)).mpr hsname⟩
  rw [storageOf?, Registry.withdraw, lookup_erase_of_ne hf]
  exact hs

end Grounded

/-! ## Taking back around a load -/

/-- A storage that a step is not about may be registered before it is taken back or after. -/
theorem undo_register (hu : ∀ c f, u.entry? = some (c, f) → c ≠ st.cluster ∧ f ≠ st.treeFile) :
    ((r.undo u).register st).Extends ((r.register st).undo u) := by
  cases u with
  | unregister c f =>
    obtain ⟨hc, hf⟩ := hu c f rfl
    exact ⟨⟨rfl, lookup_insert_erase hc.symm _ _, lookup_insert_erase hf.symm _ _⟩, List.prefix_rfl⟩
  | register c f id =>
    obtain ⟨hc, hf⟩ := hu c f rfl
    exact ⟨⟨rfl, lookup_insert_comm hc.symm _ _ _, lookup_insert_comm hf.symm _ _ _⟩, List.prefix_rfl⟩
  | step label => exact .refl _

theorem Extends.includes (h : r.Extends r') : r.Includes r' :=
  ⟨h.storages, fun hc => ⟨(h.alike.clusters _).symm.trans hc, h.alike.registered _⟩⟩

theorem foldl_undo_register (hus : ∀ u ∈ us, ∀ c f, u.entry? = some (c, f) → c ≠ st.cluster ∧ f ≠ st.treeFile) :
    ((us.foldl undo r).register st).Includes (us.foldl undo (r.register st)) := by
  induction us generalizing r with
  | nil => exact .refl _
  | cons u us ih =>
    have hrest := ih (r := r.undo u) fun u' hu' => hus u' (List.mem_cons_of_mem u hu')
    exact hrest.trans ((undo_register (hus u List.mem_cons_self)).includes.foldl_undo us)

end Registry

end RefStore
