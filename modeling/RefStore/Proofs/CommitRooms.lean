import RefStore.Proofs.HousedStores

/-!
# Room for what is committed

No file of a disk gets longer than a disk allows. So the pages and the log of an operation that was
committed had room, whatever else could go wrong, and an operation on few files always has room. Main
statements: `Workspace.Backed.storable`, `Workspace.Backed.storable_of_few`.
-/

namespace RefStore

variable {d d' : Disk} {file file' : PagedFile} {i : PageIndex} {page : Page} {m m' m₀ : Mounted} {e e' : Engine}
  {op : Operation} {size n : Nat} {s : Stock} {w : Workspace} {j : Journal}

theorem Disk.writeAt_room {node offset : Nat} {bytes : ByteArray} (h : (writeAt node offset bytes).Gives d () d') :
    offset + bytes.size ≤ longestFile := by
  rw [writeAt] at h
  split at h
  · exact absurd h Task.not_gives_refuse
  · exact Nat.not_lt.mp ‹_›

theorem PagedFile.writePage_room (h : (file.writePage i page).Gives d file' d') :
    (i.toNat + 1) * page.size ≤ Disk.longestFile := by
  have hwrite {d d' : Disk} (hw : (liftM (Disk.writeAt file.node (file.offset i) page.bytes) :
      Task Disk FileError Unit).Gives d () d') (hsize : page.size = file.pageSize) :
      (i.toNat + 1) * page.size ≤ Disk.longestFile := by
    have hroom := Disk.writeAt_room (Task.embed_gives hw)
    rw [offset, ← hsize] at hroom
    rwa [Nat.succ_mul]
  rw [writePage] at h
  split at h
  · exact absurd h Task.not_gives_refuse
  next hsize =>
  split at h
  · obtain ⟨_, _, h₁, -⟩ := Task.bind_gives h
    exact hwrite h₁ (not_not.mp hsize)
  · obtain ⟨_, _, -, h⟩ := Task.bind_gives h
    obtain ⟨_, _, -, h⟩ := Task.bind_gives h
    obtain ⟨_, _, h₁, -⟩ := Task.bind_gives h
    exact hwrite h₁ (not_not.mp hsize)

namespace Mounted

theorem installPage_room {id : FileId} (hpage : 8 ≤ page.size) (h : (installPage id i page).Gives m () m') :
    (i.toNat + 1) * page.size ≤ Disk.longestFile := by
  obtain ⟨f, _, -, hseal⟩ := Task.bind_gives h
  obtain ⟨stored, _, h₂, hwrite⟩ := Task.bind_gives hseal
  obtain ⟨hstored, rfl⟩ := Task.gives_ofChecked h₂
  have hfields : 6 ≤ page.size := Nat.le_trans (by decide) hpage
  rw [Page.sealed_eq hfields] at hstored
  cases hstored
  obtain ⟨g, _, h₃, -⟩ := Task.bind_gives hwrite
  obtain ⟨d, hw, -⟩ := Task.inPart_gives h₃
  exact Page.size_withSeal hfields ▸ PagedFile.writePage_room hw

theorem installs_room {changes : List (FileId × PageIndex × Draft)}
    (hsize : ∀ x ∈ changes, 8 ≤ x.2.2.overlay.page.size)
    (h : (changes.forM fun (file, index, d) => installPage file index d.overlay.page).Gives m () m') :
    ∀ x ∈ changes, (x.2.1.toNat + 1) * x.2.2.overlay.page.size ≤ Disk.longestFile := by
  induction changes generalizing m with
  | nil => exact nofun
  | cons c changes ih =>
    obtain ⟨_, m₁, h₁, hrest⟩ := Task.bind_gives h
    intro x hx
    rcases List.mem_cons.mp hx with rfl | hx
    · exact installPage_room (hsize x List.mem_cons_self) h₁
    · exact ih (fun y hy => hsize y (List.mem_cons_of_mem _ hy)) hrest x hx

end Mounted

namespace Engine

theorem record_room (h : (record op).Gives e () e') : op.logBytes.length ≤ Disk.longestFile := by
  obtain ⟨_, _, h₀, h⟩ := Task.bind_gives h
  obtain ⟨rfl, rfl⟩ := (Task.Gives.state e).unique h₀
  obtain ⟨stop, e₁, -, h⟩ := Task.bind_gives h
  obtain ⟨done, e₂, hwritten, h⟩ := Task.bind_gives h
  cases done with
  | error cause =>
    obtain ⟨cut, _, -, h⟩ := Task.bind_gives h
    cases cut with
    | error _ =>
      obtain ⟨_, _, -, h⟩ := Task.bind_gives h
      exact absurd h Task.not_gives_refuse
    | ok _ => exact absurd h Task.not_gives_refuse
  | ok _ =>
    obtain ⟨_, _, happend, -⟩ := Task.bind_gives (Task.attempt_ok_gives hwritten)
    obtain ⟨m, hmounted, -⟩ := Task.onPart_gives happend
    obtain ⟨d, hlog, -⟩ := Task.inPart_gives hmounted
    obtain ⟨offset, d₁, -, hwrite⟩ := Task.bind_gives hlog
    have hroom := Disk.writeAt_room (Task.embed_gives hwrite)
    rw [← Block.length_toList, Block.toList_ofList] at hroom
    exact Nat.le_trans (Nat.le_add_left _ _) hroom

/-- What was committed had room. -/
theorem commit_room (hop : op.Over size s) (hs : 8 ≤ size) (h : (commit op).Gives e () e') :
    (∀ {id i d}, (id, i, d) ∈ op.changes → (i.toNat + 1) * size ≤ Disk.longestFile) ∧
      op.logBytes.length ≤ Disk.longestFile := by
  have hpages {x : FileId × PageIndex × Draft} (hx : x ∈ op.changes) : x.2.2.overlay.page.size = size := by
    obtain ⟨ht, hsize⟩ := hop.tidy_of_change hx
    exact (Overlay.size_page ht).trans hsize
  rcases commit_gives h with ⟨hempty, rfl⟩ | ⟨hchanges, e₁, m, -, hinstall, -⟩
  · simp only [Operation.isEmpty, Bool.and_eq_true, List.isEmpty_iff, ← Std.TreeSet.isEmpty_toList] at hempty
    obtain ⟨⟨hcreated, hdeleted⟩, hchanges⟩ := hempty
    have hlog : op.logBytes = (⟨op.id, .commit⟩ : LogRecord).encode := by
      simp [Operation.logBytes, Operation.records, Operation.payloads, hcreated, hdeleted, hchanges]
    rw [hchanges, hlog, LogRecord.length_encode]
    exact ⟨fun hx => absurd hx List.not_mem_nil, show 13 + 0 + 4 ≤ Disk.longestFile by decide⟩
  · rw [commit_eq, hchanges] at h
    obtain ⟨_, _, hrecord, -⟩ := Task.bind_gives h
    obtain ⟨_, _, -, hrest⟩ := Task.bind_gives hinstall
    obtain ⟨_, _, -, hrest⟩ := Task.bind_gives hrest
    obtain ⟨_, _, hpaged, -⟩ := Task.bind_gives hrest
    refine ⟨fun {id i d} hx => ?_, record_room hrecord⟩
    have hroom := Mounted.installs_room (fun x hx => (hpages hx).symm ▸ hs) hpaged _ hx
    rwa [hpages hx] at hroom

end Engine

/-- Only files of clusters are added. -/
theorem Transaction.Hosts.created_named {t : Transaction} {storages : List ClusterStorage}
    (h : t.Hosts size s n storages) {f : FileId} {x : String} (hc : (f, x) ∈ t.operation.created) :
    ∃ cluster, x = Cluster.treeName cluster ∨ x = Cluster.sizesName cluster := by
  obtain ⟨_, -, c, ⟨hname, -⟩ | ⟨hname, -⟩⟩ := h.filled (.inl hc)
  · exact ⟨c, .inl hname⟩
  · exact ⟨c, .inr hname⟩

/-- An operation that was committed could be stored. -/
theorem Workspace.Backed.storable (h : w.Backed m₀ j size s n)
    (commit : (Engine.commit w.operation).Gives w.store.engine () e) : w.operation.Storable size := by
  obtain ⟨m, -, hosts⟩ := h.twin
  have hop : w.operation.Over size s := hosts.ready.based.operation
  obtain ⟨room, logged⟩ := Engine.commit_room hop (Nat.le_trans (by decide) hosts.ample.1) commit
  exact ⟨hosts.created_named, room, logged⟩

/-! ## Room for small operations -/

theorem Tree.Written.length_pages_le {es : List Entry} {pages : List Page} (h : Written size es n pages) :
    pages.length ≤ 2 * (n + 1) := by
  obtain ⟨⟨s, _, b, hon, hb, -, htips⟩, -⟩ := h
  obtain ⟨_, hfirst, -⟩ := hon.info
  have hpos : 0 < s.size := hon.size ▸ (List.getElem?_eq_some_iff.mp hfirst).1
  rw [hon.size]
  exact Nat.le_trans (hb.size_le hpos) (Nat.mul_le_mul_left 2 htips)

theorem SizeMap.Written.length_pages_le {ns : List Int32} {pages : List Page} (h : Written size ns pages) :
    pages.length ≤ 2 ^ 31 := by
  rw [h.on.length]
  exact h.few

theorem Cluster.Fills.length_pages_le {x : String} {pages : List Page} (h : Fills size n x pages) (hn : n < 2 ^ 30) :
    pages.length ≤ 2 ^ 31 := by
  obtain ⟨_, ⟨-, es, hes⟩ | ⟨-, ns, hns⟩⟩ := h
  · have := hes.length_pages_le
    omega
  · exact hns.length_pages_le

/-- A list is no longer than the numbers that tell its members apart. -/
theorem length_le_of_apart {α : Type} {l : List α} {f : α → ℕ} {bound : ℕ} (hl : (l.map f).Nodup)
    (hb : ∀ x ∈ l, f x < bound) : l.length ≤ bound := by
  have hsub : l.map f ⊆ List.range bound := fun k hk => by
    obtain ⟨x, hx, rfl⟩ := List.mem_map.mp hk
    exact List.mem_range.mpr (hb x hx)
  have hle := (hl.subperm hsub).length_le
  rwa [List.length_map, List.length_range] at hle

theorem length_flatMap_le {α β : Type} {l : List α} {f : α → List β} {bound : ℕ} (h : ∀ x ∈ l, (f x).length ≤ bound) :
    (l.flatMap f).length ≤ l.length * bound := by
  induction l with
  | nil => exact Nat.zero_le _
  | cons x l ih =>
    have hfirst := h x List.mem_cons_self
    have hrest := ih fun y hy => h y (List.mem_cons_of_mem x hy)
    rw [List.flatMap_cons, List.length_append, List.length_cons, Nat.succ_mul]
    omega

namespace Operation

/-- The ids of its files and the indexes of its pages bound what an operation logs. -/
theorem Over.length_payloads_le (hop : op.Over size s) {files pages : ℕ}
    (hdeleted : ∀ f ∈ op.deleted, f.toNat < files) (hcreated : ∀ e ∈ op.created, e.1.toNat < files)
    (hchanges : ∀ {f i d}, (f, i, d) ∈ op.changes → f.toNat < files ∧ i.toNat < pages) :
    op.payloads.length ≤ files * (pages + 2) + 1 := by
  have h₁ : op.deleted.toList.length ≤ files :=
    length_le_of_apart (op.nodup_deleted.map fun _ _ => UInt32.toNat_inj.mp) fun f hf =>
      hdeleted f (Std.TreeSet.mem_toList.mp hf)
  have h₂ : op.created.length ≤ files := by
    refine length_le_of_apart (f := fun e => e.1.toNat) ?_ hcreated
    have hids := hop.ids.map (f := UInt32.toNat) fun _ _ => UInt32.toNat_inj.mp
    rwa [List.map_map] at hids
  have h₃ : op.changes.length ≤ files * pages := by
    -- files and pages together tell the changes apart
    refine length_le_of_apart (f := fun x => x.1.toNat * pages + x.2.1.toNat) ?_ ?_
    · refine List.pairwise_map.mpr (op.pairwise_changes.imp_of_mem ?_)
      rintro ⟨f, i, d⟩ ⟨g, k, d'⟩ hx - (hlt | ⟨rfl, hlt⟩) <;> refine Nat.ne_of_lt ?_ <;> dsimp only at hlt ⊢
      · have hrow := Nat.mul_le_mul_right pages (Nat.succ_le_of_lt (UInt32.lt_iff_toNat_lt.mp hlt))
        have := (hchanges hx).2
        rw [Nat.succ_mul] at hrow
        omega
      · exact Nat.add_lt_add_left (UInt64.lt_iff_toNat_lt.mp hlt) _
    · rintro ⟨f, i, d⟩ hx
      obtain ⟨hfile, hpage⟩ := hchanges hx
      have hrow := Nat.mul_le_mul_right pages (Nat.succ_le_of_lt hfile)
      rw [Nat.succ_mul] at hrow
      dsimp only
      omega
  simp only [payloads, List.length_append, List.length_map, List.length_singleton, Nat.mul_add]
  omega

end Operation

/-- On few files of clusters with not too many entries, an operation has room for its commit. -/
theorem Workspace.Backed.storable_of_few (h : w.Backed m₀ j size s n) (hn : n < 2 ^ 30)
    (hfiles : w.store.engine.mounted.volume.catalog.nextId.toNat ≤ 2 ^ 10) : w.operation.Storable size := by
  obtain ⟨m, hm, hosts⟩ := h.twin
  have hbased := hosts.ready.based
  have hop : w.operation.Over size s := hbased.operation
  have hbelow {f : FileId} (hf : w.operation.Concerns f) : f.toNat < 2 ^ 10 := by
    rw [← hm.nextId] at hfiles
    exact Nat.lt_of_lt_of_le (UInt32.lt_iff_toNat_lt.mp (hbased.concerned_lt hf)) hfiles
  have hchanges {f : FileId} {i : PageIndex} {d : Draft} (hx : (f, i, d) ∈ w.operation.changes) :
      f.toNat < 2 ^ 10 ∧ i.toNat < 2 ^ 31 := by
    have hd := (Operation.mem_changes.mp hx).1
    obtain ⟨x, hsees⟩ := hop.sees_of_draft hd
    obtain ⟨pages, hp, hfill⟩ := hosts.filled hsees
    exact ⟨hbelow (.inr (.inr ⟨i, d, hx⟩)),
      Nat.lt_of_lt_of_le (hp.drafts.draft i d hd).1 (hfill.length_pages_le hn)⟩
  have hlen := hop.length_payloads_le (fun f hf => hbelow (.inl hf)) (fun e he => hbelow (.inr (.inl ⟨e.2, he⟩)))
    hchanges
  refine ⟨hosts.created_named, fun {f i d} hx => ?_, ?_⟩
  · obtain ⟨-, hi⟩ := hchanges hx
    exact Nat.le_trans (Nat.mul_le_mul hi hosts.ample.2) (by decide)
  · have hshort : ∀ r ∈ w.operation.records, r.encode.length ≤ 2 ^ 20 := by
      intro r hr
      obtain ⟨p, hp, rfl⟩ := List.mem_map.mp hr
      have hpayload := (hop.payload_short hosts.ample.2 (fun {f x} hc => ?_) p hp).2
      · rw [LogRecord.length_encode]
        simp only [LogRecord.headerSize, LogRecord.checksumSize]
        omega
      · obtain ⟨c, rfl | rfl⟩ := hosts.created_named hc
        · exact Nat.le_trans (Cluster.treeName_dataName c).2 (by decide)
        · exact Nat.le_trans (Cluster.sizesName_dataName c).2 (by decide)
    refine Nat.le_trans (length_flatMap_le hshort) ?_
    rw [Operation.records, List.length_map]
    exact Nat.le_trans (Nat.mul_le_mul_right _ hlen) (by decide)

/-- A commit hands out no file ids. -/
theorem Workspace.Backed.next_finish {α : Type} {st : Store} {a b : α} (h : w.Backed m₀ j size s n)
    (hf : w.finish (.ok a) = (.ok b, st)) :
    st.engine.mounted.volume.catalog.nextId = w.store.engine.mounted.volume.catalog.nextId := by
  obtain ⟨m, hm, hosts⟩ := h.twin
  rw [Workspace.finish] at hf
  split at hf
  · next e' hcommit =>
    cases hf
    refine Engine.commit_next_eq hcommit fun f hf => ?_
    rw [← hm.nextId]
    exact hosts.ready.based.concerned_lt hf
  · cases hf

end RefStore
