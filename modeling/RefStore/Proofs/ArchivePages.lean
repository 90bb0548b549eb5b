import RefStore.Proofs.ArchiveChanges
import RefStore.Proofs.Maps

/-!
# Pages of an archive

Reading, installing and forgetting pages while the disk works. A page is read alike from memory and from the
disk, and a page that is installed is sealed and takes its place, with zero pages before it if the file was
shorter. Main statements: `Mounted.Archives.loadPage`, `Mounted.Archives.installPage_ends`,
`Mounted.Archives.close`.
-/

namespace RefStore.Mounted

variable {m : Mounted} {dir : Path} {place : Location} {size : Nat} {a : Archive} {id : FileId}
  {name : String} {i : PageIndex} {p page : Page}

namespace Archives

/-- A registered file is open. -/
theorem opened (h : m.Archives dir place size a) (hid : a.names id = some name) : ∃ n resident,
    (openFile id).Gives m ⟨name, .handle dir name n size (a.pages id), resident⟩ m ∧
      m.disk.Paged place name n size (a.pages id) ∧
      ∀ (i : PageIndex) p, resident[i]? = some p → (a.pages id)[i.toNat]? = some p := by
  obtain ⟨n, resident, hf, hn, hres⟩ := h.file hid
  obtain ⟨n', hpaged⟩ := h.disk.file hid
  obtain rfl : n = n' := Option.some.inj (hn.symm.trans hpaged.node)
  exact ⟨n, resident, openFile_known hf, hpaged, hres⟩

theorem length_lt (h : m.Archives dir place size a) (hid : a.names id = some name) :
    (a.pages id).length < UInt64.size := by
  have hle := Nat.le_mul_of_pos_right (a.pages id).length h.positive
  have hb := h.disk.sane.bounded hid
  simp only [Disk.longestFile, UInt64.size] at hb ⊢
  omega

theorem fileName (h : m.Archives dir place size a) (hid : a.names id = some name) :
    (Mounted.fileName id).Gives m name m := by
  obtain ⟨n, resident, hopen, -⟩ := h.opened hid
  exact hopen.bind (.pure _ m)

theorem pageCount (h : m.Archives dir place size a) (hid : a.names id = some name) :
    (Mounted.pageCount id).Gives m (UInt64.ofNat (a.pages id).length) m := by
  obtain ⟨n, resident, hopen, -⟩ := h.opened hid
  exact hopen.bind (.pure _ m)

/-- One file is replaced by one with the same node, and all others keep their bytes. -/
theorem withFile (h : m.Archives dir place size a) (hid : a.names id = some name) {d : Disk} {n : Nat}
    {ps : List Page} {resident : Std.TreeMap PageIndex Page} (hlive : d.outage = none)
    (ho : Disk.OnlyAt dir place name m.disk d) (hp : d.Paged place name n size ps)
    (hb : ps.length * size ≤ Disk.longestFile) (hv : ∀ p ∈ ps, p.verify = .ok ())
    (hres : ∀ (i : PageIndex) p, resident[i]? = some p → ps[i.toNat]? = some p) :
    Archives dir place size (a.withPages id ps)
      ⟨d, m.volume.withFile id ⟨name, .handle dir name n size ps, resident⟩⟩ := by
  refine h.of_aside (h.disk.withPages hid ho hp hb hv) hlive h.directory h.pageSize
    ⟨h.catalog.lists, h.catalog.next⟩ (fun f hne => ⟨rfl, if_neg hne, lookup_insert_of_ne hne⟩)
    (fun f x hne hx => ho.node x fun he => hne (h.disk.sane.inj hx (he ▸ hid))) (fun x hx => ?_)
    fun hno => nomatch hno.symm.trans hid
  obtain rfl : name = x := Option.some.inj (hid.symm.trans hx)
  rw [Archive.pages_withPages_self]
  exact ⟨n, resident, Std.TreeMap.getElem?_insert_self, hp.node, hres⟩

/-- A page of a registered file can be loaded, from memory or from the disk. -/
theorem loadPage (h : m.Archives dir place size a) (hid : a.names id = some name)
    (hp : (a.pages id)[i.toNat]? = some p) : ∃ m', (Mounted.loadPage id i).Gives m p m' ∧
      m'.Archives dir place size a ∧ m'.volume.catalog = m.volume.catalog := by
  obtain ⟨n, resident, hopen, hpaged, hres⟩ := h.opened hid
  cases hr : resident[i]? with
  | some q =>
    obtain rfl : q = p := Option.some.inj ((hres i q hr).symm.trans hp)
    refine ⟨m, hopen.bind ?_, h, rfl⟩
    dsimp only
    rw [hr]
    exact .pure q m
  | none =>
    have hin : ¬ (PagedFile.handle dir name n size (a.pages id)).pageCount ≤ i :=
      UInt64.not_le.mpr ((PagedFile.lt_pageCount (h.length_lt hid)).mpr (List.getElem?_eq_some_iff.mp hp).1)
    have hread : ((PagedFile.handle dir name n size (a.pages id)).readPage i size).Gives m.disk p m.disk :=
      PagedFile.readPage_start hpaged (h.length_lt hid) hp
    have hv := h.disk.sane.verified hid p (List.mem_of_getElem? hp)
    have hpassed : (Task.ofChecked (p.verify.mapError fun cause =>
        .corruption (name ++ s!" page {i}: " ++ cause.message)) : Task Mounted StorageError Unit).Gives m () m :=
      .ofChecked (by rw [hv]; rfl) m
    have hkept := h.withFile hid h.live (.refl h.disk.houses name) hpaged (h.disk.sane.bounded hid)
      (h.disk.sane.verified hid) fun j q hq => Page.getElem?_of_insert hres hp hq
    rw [Archive.withPages_self] at hkept
    refine ⟨_, hopen.bind ?_, hkept, rfl⟩
    dsimp only
    rw [hr]
    dsimp only
    rw [if_neg hin]
    refine (Task.Gives.state m).bind ?_
    rw [h.pageSize]
    exact hread.inPart.bind (hpassed.bind ((Task.Gives.change _ m).bind (.pure p _)))

theorem loadPage_outside (h : m.Archives dir place size a) (hid : a.names id = some name)
    (hi : (a.pages id).length ≤ i.toNat) : (Mounted.loadPage id i).start m =
      (refuse (.pageOutOfBounds id i (UInt64.ofNat (a.pages id).length)), m) := by
  obtain ⟨n, resident, hopen, hpaged, hres⟩ := h.opened hid
  have hnone : resident[i]? = none := by
    refine Option.eq_none_iff_forall_ne_some.mpr fun q hq => ?_
    have := (List.getElem?_eq_some_iff.mp (hres i q hq)).1
    omega
  have hin : (PagedFile.handle dir name n size (a.pages id)).pageCount ≤ i :=
    UInt64.not_lt.mp (mt (PagedFile.lt_pageCount (h.length_lt hid)).mp (by omega))
  rw [Mounted.loadPage, hopen.start_bind]
  dsimp only
  rw [hnone]
  dsimp only
  rw [if_pos hin]
  rfl

theorem loadPage_none (h : m.Archives dir place size a) (hid : a.names id = none) (i : PageIndex) :
    (Mounted.loadPage id i).start m = (refuse (.unknownFile id), m) :=
  Task.start_bind_error (h.openFile_none hid) _

/-- However loading ends, it changes neither files nor pages. -/
theorem loadPage_ends (h : m.Archives dir place size a) (id : FileId) (i : PageIndex) :
    (Mounted.loadPage id i).Ends m
      (fun _ m' => m'.Archives dir place size a ∧ m'.volume.catalog = m.volume.catalog) fun _ m' => m' = m := by
  cases hid : a.names id with
  | none => exact .error (h.loadPage_none hid i) rfl
  | some name =>
    rcases Nat.lt_or_ge i.toNat (a.pages id).length with hlt | hge
    · obtain ⟨m', hg, hm⟩ := h.loadPage hid (List.getElem?_eq_getElem hlt)
      exact hg.ends hm
    · exact .error (h.loadPage_outside hid hge) rfl

/-- A page is sealed and put in its place. -/
theorem installPage (h : m.Archives dir place size a) (hid : a.names id = some name) (hps : page.size = size)
    (hsix : 6 ≤ size) (hroom : (i.toNat + 1) * size ≤ Disk.longestFile) :
    ∃ m', (Mounted.installPage id i page).Gives m () m' ∧
      m'.Archives dir place size (a.withPages id (Page.filled size (a.pages id) i page.withSeal)) ∧
      m'.volume.catalog = m.volume.catalog := by
  obtain ⟨n, resident, hopen, hpaged, hres⟩ := h.opened hid
  have hpage : 6 ≤ page.size := hps ▸ hsix
  have hsealed : (Task.ofChecked page.sealed : Task Mounted StorageError Page).Gives m page.withSeal m :=
    .ofChecked (Page.sealed_eq hpage) m
  obtain ⟨d, hw, hout, ho, hd⟩ : ∃ d, ((PagedFile.handle dir name n size (a.pages id)).writePage i
      page.withSeal).Survives m.disk (fun _ => True) _ d ∧ _ :=
    PagedFile.fillPage_survives h.disk.houses hpaged (h.length_lt hid) ((Page.size_withSeal hpage).trans hps)
      h.positive hroom trivial fun _ _ _ _ => trivial
  have hwrite := hw.gives_of_live h.live (hout.trans h.live)
  have hlong : (Page.filled size (a.pages id) i page.withSeal).length * size ≤ Disk.longestFile :=
    Page.filled_bounded (h.disk.sane.bounded hid) hroom
  have hverified : ∀ q ∈ Page.filled size (a.pages id) i page.withSeal, q.verify = .ok () := by
    intro q hq
    rcases Page.mem_filled hq with hq | rfl | rfl
    · exact h.disk.sane.verified hid q hq
    · exact Page.verify_zero hsix
    · exact Page.verify_seal hpage
  have hkept := h.withFile hid (hout.trans h.live) ho hd hlong hverified
    fun j q hq => Page.filled_of_insert hres hq
  exact ⟨⟨d, m.volume.withFile id ⟨name, .handle dir name n size (Page.filled size (a.pages id) i page.withSeal),
    resident.insert i page.withSeal⟩⟩,
    hopen.bind (hsealed.bind (hwrite.inPart.bind (.change _ _))), hkept, rfl⟩

/-- Nothing is written to a file that would be too long. -/
theorem installPage_long (h : m.Archives dir place size a) (hid : a.names id = some name) (hps : page.size = size)
    (hsix : 6 ≤ size) (hlong : Disk.longestFile < (i.toNat + 1) * size) :
    ∃ cause, (Mounted.installPage id i page).start m = (.error cause, m) := by
  obtain ⟨n, resident, hopen, hpaged, hres⟩ := h.opened hid
  have hpage : 6 ≤ page.size := hps ▸ hsix
  have hsealed : (Task.ofChecked page.sealed : Task Mounted StorageError Page).Gives m page.withSeal m :=
    .ofChecked (Page.sealed_eq hpage) m
  have hge : (a.pages id).length ≤ i.toNat := by
    by_contra hlt
    have hle := Nat.mul_le_mul_right size (show i.toNat + 1 ≤ (a.pages id).length by omega)
    exact Nat.not_le_of_lt hlong (Nat.le_trans hle (h.disk.sane.bounded hid))
  obtain ⟨cause, hwrite⟩ : ∃ cause, ((PagedFile.handle dir name n size (a.pages id)).writePage i
      page.withSeal).start m.disk = (.error cause, m.disk) :=
    PagedFile.fillPage_refuses (h.length_lt hid) hge ((Page.size_withSeal hpage).trans hps) hlong
  exact ⟨_, (hopen.start_bind _).trans
    ((hsealed.start_bind _).trans (Task.start_bind_error (Task.start_inPart_error (s := m) hwrite) _))⟩

/-- A page is put in its place, or nothing happens. -/
theorem installPage_ends (h : m.Archives dir place size a) (hps : page.size = size) (id : FileId) (i : PageIndex) :
    (Mounted.installPage id i page).Ends m
      (fun _ m' => a.names id ≠ none ∧ 6 ≤ size ∧
        m'.Archives dir place size (a.withPages id (Page.filled size (a.pages id) i page.withSeal)) ∧
        m'.volume.catalog = m.volume.catalog) fun _ m' => m' = m := by
  cases hid : a.names id with
  | none => exact .error_bind (h.openFile_none hid) rfl
  | some name =>
    by_cases hsix : 6 ≤ size
    · rcases Nat.lt_or_ge Disk.longestFile ((i.toNat + 1) * size) with hlong | hroom
      · obtain ⟨cause, hs⟩ := h.installPage_long hid hps hsix hlong
        exact .error hs rfl
      · obtain ⟨m', hg, hm⟩ := h.installPage hid hps hsix hroom
        exact hg.ends ⟨nofun, hsix, hm⟩
    · obtain ⟨n, resident, hopen, -⟩ := h.opened hid
      cases hs : (page.sealed : Checked StorageError Page) with
      | error cause =>
        have hchecked : (Task.ofChecked page.sealed : Task Mounted StorageError Page).start m = (.error cause, m) := by
          rw [Task.start_ofChecked, hs]
        exact hopen.bind_ends (.error_bind hchecked rfl)
      | ok stored => exact absurd (hps ▸ Page.le_of_sealed hs) hsix

end Archives

/-- On a disk that works all files can be synced, and nothing changes. -/
theorem syncAll_gives (h : m.disk.outage = none) : syncAll.Gives m () m := by
  have hsync {id : FileId} (hid : id ∈ m.volume.files) : (sync id).Gives m () m := by
    obtain ⟨f, hf⟩ := Option.isSome_iff_exists.mp (Std.TreeMap.isSome_getElem?_iff_mem.mpr hid)
    have hdisk : (Disk.sync f.file.node).Survives m.disk (fun _ => True) () m.disk :=
      Disk.sync_survives trivial f.file.node
    exact (openFile_known hf).bind (hdisk.gives_of_live h h).embed.inPart
  have hall : ∀ ids : List FileId, (∀ id ∈ ids, id ∈ m.volume.files) → (ids.forM sync).Gives m () m := by
    intro ids
    induction ids with
    | nil => exact fun _ => .pure () m
    | cons id ids ih =>
      exact fun hids => (hsync (hids id List.mem_cons_self)).bind (ih fun f hf => hids f (List.mem_cons_of_mem _ hf))
  exact (Task.Gives.state m).bind (hall _ fun id hid => Std.TreeMap.mem_keys.mp hid)

namespace Archives

/-- Closing forgets the pages in memory. -/
theorem close (h : m.Archives dir place size a) : ∃ m', Mounted.close.Gives m () m' ∧
    m'.Archives dir place size a ∧ m'.volume.catalog = m.volume.catalog := by
  refine ⟨_, (syncAll_gives h.live).bind (Task.Gives.change _ m), ?_, rfl⟩
  exact { h with
    catalog := ⟨h.catalog.lists, h.catalog.next⟩
    file := fun {id name} hid => by
      obtain ⟨n, resident, hf, hn, -⟩ := h.file hid
      refine ⟨n, ∅, ?_, hn, by simp⟩
      simp [Std.TreeMap.getElem?_map, hf]
    noFile := fun {id} hid => by simp [Std.TreeMap.getElem?_map, h.noFile hid] }

end Archives

end RefStore.Mounted
