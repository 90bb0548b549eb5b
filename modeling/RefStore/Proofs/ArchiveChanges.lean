import RefStore.Proofs.Archives
import RefStore.Proofs.LastingCalls
import RefStore.Proofs.Maps
import RefStore.Proofs.Mirrors

/-!
# Adding and deleting files of an archive

A mounted volume that agrees with the archive on its disk. While the disk works, a file is made or deleted
in both, or the call is refused and nothing has changed. Main statements: `Mounted.Archives.delete_ends`,
`Mounted.Archives.createWithId_ends`, `Mounted.Archives.create_ends`.
-/

namespace RefStore.Mounted

variable {m m' : Mounted} {dir : Path} {place : Location} {size : Nat} {a : Archive} {id : FileId}
  {name : String}

/-- A volume in memory that agrees with the archive on its disk. The disk works. -/
structure Archives (dir : Path) (place : Location) (size : Nat) (a : Archive) (m : Mounted) : Prop where
  disk : m.disk.Archives dir place size a
  live : m.disk.outage = none
  room : dir.Fits Catalog.temporaryName
  positive : 0 < size
  directory : m.volume.directory = dir
  pageSize : m.volume.pageSize = size
  catalog : m.volume.catalog.Covers a
  file : ∀ {id name}, a.names id = some name → ∃ n resident,
    m.volume.files[id]? = some ⟨name, .handle dir name n size (a.pages id), resident⟩ ∧
      m.disk.node? place name = some n ∧
      ∀ (i : PageIndex) p, resident[i]? = some p → (a.pages id)[i.toNat]? = some p
  noFile : ∀ {id}, a.names id = none → m.volume.files[id]? = none

/-- There is room for the catalog where there is room for the temporary one. -/
theorem fits_catalog (h : dir.Fits Catalog.temporaryName) : dir.Fits Catalog.fileName := by
  have hplain : Path.Plain Catalog.fileName := by constructor <;> decide
  exact ⟨hplain, Path.isUsable_join h.usable h.plain hplain (by decide)⟩

/-- Saving another catalog on a disk that works. -/
theorem recatalog_start {g : Catalog → Catalog} (h : m.disk.Houses dir place) (hlive : m.disk.outage = none)
    (hdir : m.volume.directory = dir) (hroom : dir.Fits Catalog.temporaryName)
    (hc : (g m.volume.catalog).Encodable) :
    ∃ d, (recatalog g).Gives m () ⟨d, { m.volume with catalog := g m.volume.catalog }⟩ ∧
      d.outage = none ∧ Catalog.Saved dir place (g m.volume.catalog) m.disk d := by
  obtain ⟨d, hs, hd⟩ : ∃ d, (recatalog g).Survives m (fun _ => True) ()
      ⟨d, { m.volume with catalog := g m.volume.catalog }⟩ ∧ _ :=
    recatalog_survives h hdir hc (fits_catalog hroom) hroom (fun _ _ => trivial) fun _ _ => trivial
  exact ⟨withOutage none d, hs.gives hlive, rfl, hd.restart⟩

namespace Archives

theorem openFile_none (h : m.Archives dir place size a) (hid : a.names id = none) :
    (openFile id).start m = (refuse (.unknownFile id), m) :=
  openFile_unknown (h.noFile hid)

theorem idOf?_eq_some (h : m.Archives dir place size a) :
    m.volume.idOf? name = some id ↔ a.names id = some name :=
  h.catalog.lists.idOf?_eq_some h.disk.sane.inj

theorem idOf?_eq_none (h : m.Archives dir place size a) (hfree : ∀ f, a.names f ≠ some name) :
    m.volume.idOf? name = none :=
  Option.eq_none_iff_forall_ne_some.mpr fun f hf => hfree f (h.idOf?_eq_some.mp hf)

/-- An id is handed out. -/
theorem reserve (h : m.Archives dir place size a) (hnext : m.volume.catalog.nextId ≠ FileId.none) :
    ∃ m', reserveId.Gives m m.volume.catalog.nextId m' ∧ m'.Archives dir place size a ∧
      m'.volume.catalog.nextId = m.volume.catalog.nextId + 1 :=
  ⟨{ m with volume := { m.volume with catalog := m.volume.catalog.reserve.2 } },
    (Task.Gives.state m).bind ((Task.Gives.change _ m).bind (.pure _ _)),
    { h with catalog := h.catalog.reserve hnext }, rfl⟩

/-- What stands under a name that is not registered does not matter. -/
theorem of_onlyAt (h : m.Archives dir place size a) {d : Disk} {x : String}
    (ho : Disk.OnlyAt dir place x m.disk d) (hlive : d.outage = none) (hx : ∀ f, a.names f ≠ some x)
    (hc : x ≠ Catalog.fileName) : Archives dir place size a ⟨d, m.volume⟩ where
  disk := h.disk.of_onlyAt ho hx hc
  live := hlive
  room := h.room
  positive := h.positive
  directory := h.directory
  pageSize := h.pageSize
  catalog := h.catalog
  file {f y} hf := by
    obtain ⟨n, res, hfile, hn, hres⟩ := h.file hf
    exact ⟨n, res, hfile, (ho.node y fun he => hx f (he ▸ hf)).trans hn, hres⟩
  noFile := h.noFile

/-- One file was added, replaced or deleted, and all others are as they were. -/
theorem of_aside (h : m.Archives dir place size a) {a' : Archive} {d : Disk} {v : Volume}
    (hd : d.Archives dir place size a') (hlive : d.outage = none) (hdir : v.directory = dir)
    (hsize : v.pageSize = size) (hc : v.catalog.Covers a')
    (hsame : ∀ f, f ≠ id → a'.names f = a.names f ∧ a'.pages f = a.pages f ∧ v.files[f]? = m.volume.files[f]?)
    (hnode : ∀ f x, f ≠ id → a.names f = some x → d.node? place x = m.disk.node? place x)
    (hfile : ∀ x, a'.names id = some x → ∃ n resident,
      v.files[id]? = some ⟨x, .handle dir x n size (a'.pages id), resident⟩ ∧ d.node? place x = some n ∧
        ∀ (i : PageIndex) p, resident[i]? = some p → (a'.pages id)[i.toNat]? = some p)
    (hgone : a'.names id = none → v.files[id]? = none) : Archives dir place size a' ⟨d, v⟩ where
  disk := hd
  live := hlive
  room := h.room
  positive := h.positive
  directory := hdir
  pageSize := hsize
  catalog := hc
  file {f x} hx := by
    by_cases he : f = id
    · subst he
      exact hfile x hx
    · obtain ⟨hnames, hpages, hfiles⟩ := hsame f he
      rw [hnames] at hx
      obtain ⟨n, res, hf, hn, hres⟩ := h.file hx
      rw [hpages]
      exact ⟨n, res, hfiles.trans hf, (hnode f x he hx).trans hn, hres⟩
  noFile {f} hno := by
    by_cases he : f = id
    · subst he
      exact hgone hno
    · obtain ⟨hnames, -, hfiles⟩ := hsame f he
      exact hfiles.trans (h.noFile (hnames ▸ hno))

/-- A registered file is deleted. -/
theorem delete (h : m.Archives dir place size a) (hid : a.names id = some name) :
    ∃ m', (Mounted.delete id).Gives m () m' ∧ m'.Archives dir place size (a.without id) ∧
      m'.volume.catalog.nextId = m.volume.catalog.nextId := by
  obtain ⟨n, resident, hf, hn, -⟩ := h.file hid
  obtain ⟨hname, hfits⟩ := h.disk.sane.named hid
  have hsane := h.disk.sane.without id
  have hcovers := h.catalog.erase id
  obtain ⟨d, hrec, hlive, hsaved⟩ :=
    recatalog_start (m := ⟨m.disk, { m.volume with files := m.volume.files.erase id }⟩) (g := (·.erase id))
      h.disk.houses h.live h.directory h.room (hcovers.encodable hsane)
  have hkept : d.Archives dir place size (a.without id) := .of_saved hsane hcovers hsaved fun hx => by
    obtain ⟨hne, hx⟩ := Archive.names_without.mp hx
    rw [Archive.pages_without hne]
    exact h.disk.file hx
  have hrm := Disk.removeFile_gives hkept.houses hfits
    ((hsaved.node _ hname.ne_catalog hname.ne_temporary).trans hn) hlive
  have hreg : m.volume.catalog.names[id]?.isSome = true := by rw [h.catalog.lists.name, hid]; rfl
  refine ⟨⟨d.effect (.remove (place ++ [name])),
    { m.volume with files := m.volume.files.erase id, catalog := m.volume.catalog.erase id }⟩, ?_, ?_, rfl⟩
  · refine (openFile_known hf).bind ((Task.Gives.change _ m).bind ((Task.Gives.state _).bind ?_))
    dsimp only
    rw [if_pos hreg]
    exact hrec.bind hrm.inPart
  · have hgone : (a.without id).names id = none := if_pos rfl
    refine h.of_aside (hkept.of_onlyAt (.remove hkept.houses name) (fun f hx => ?_) hname.ne_catalog) hlive
      h.directory h.pageSize hcovers (fun f hne => ⟨if_neg hne, if_neg hne, lookup_erase_of_ne hne⟩)
      (fun f x hne hx => ?_) (fun x hx => nomatch hgone.symm.trans hx) fun _ => Std.TreeMap.getElem?_erase_self
    · obtain ⟨hne, hx⟩ := Archive.names_without.mp hx
      exact hne (h.disk.sane.inj hx hid)
    · have hother : x ≠ name := fun he => hne (h.disk.sane.inj hx (he ▸ hid))
      obtain ⟨hnx, -⟩ := h.disk.sane.named hx
      rw [Disk.node?_remove, if_neg hother]
      exact hsaved.node _ hnx.ne_catalog hnx.ne_temporary

theorem delete_ends (h : m.Archives dir place size a) (id : FileId) :
    (Mounted.delete id).Ends m (fun _ m' => a.names id ≠ none ∧ m'.Archives dir place size (a.without id) ∧
      m'.volume.catalog.nextId = m.volume.catalog.nextId) fun cause m' =>
        cause = .error (.unknownFile id) ∧ a.names id = none ∧ m' = m := by
  cases hid : a.names id with
  | none => exact .error_bind (h.openFile_none hid) ⟨rfl, rfl, rfl⟩
  | some name =>
    obtain ⟨m', hg, hm'⟩ := h.delete hid
    exact hg.ends ⟨nofun, hm'⟩

/-- A file is there before it is in the catalog. -/
theorem register (h : m.Archives dir place size a) (hvalid : id ≠ FileId.none)
    (hname : Component.FileName name) (hfits : dir.Fits name) (hfree : ∀ f, a.names f ≠ some name)
    (hnone : m.disk.node? place name = none) :
    ∃ m', (Mounted.register (dir.join name) size id name).Gives m () m' ∧
      m'.Archives dir place size (a.withFile id name) ∧
      m'.volume.catalog = m.volume.catalog.insert id name := by
  have hsane := h.disk.sane.withFile hvalid hname hfits hfree
  have hcovers := h.catalog.insert hvalid name
  have hmade : (PagedFile.create (dir.join name) size).Gives m.disk (.handle dir name m.disk.nextNode size [])
      (m.disk.effect (.addFile (place ++ [name]))) := by
    have hs : (PagedFile.create (dir.join name) size).Survives m.disk (fun _ => True) _ _ :=
      PagedFile.create_survives h.disk.houses hfits hnone fun _ _ => trivial
    exact hs.gives_of_live h.live h.live
  have h₁ := h.of_onlyAt (.addFile h.disk.houses hnone) h.live hfree hname.ne_catalog
  have hnew : (m.disk.effect (.addFile (place ++ [name]))).Paged place name m.disk.nextNode size [] := by
    refine ⟨by rw [Disk.node?_addFile, if_pos rfl], ?_, by simp⟩
    rw [Disk.bytes?_addFile h.disk.houses, if_pos rfl]
    rfl
  obtain ⟨d, hrec, hlive, hsaved⟩ :=
    recatalog_start (m := ⟨m.disk.effect (.addFile (place ++ [name])), m.volume⟩) (g := (·.insert id name))
      h₁.disk.houses h₁.live h.directory h.room (hcovers.encodable hsane)
  have hkept : d.Archives dir place size (a.withFile id name) := by
    refine .of_saved hsane hcovers hsaved fun {f x} hx => ?_
    rcases Archive.names_withFile.mp hx with ⟨rfl, rfl⟩ | ⟨hne, hx⟩
    · exact ⟨_, Archive.pages_withFile_self ▸ hnew⟩
    · rw [Archive.pages_withFile hne]
      exact h₁.disk.file hx
  refine ⟨⟨d, { m.volume with
    catalog := m.volume.catalog.insert id name
    files := m.volume.files.insert id ⟨name, .handle dir name m.disk.nextNode size [], ∅⟩ }⟩, ?_, ?_, rfl⟩
  · refine hmade.inPart.bind ?_
    dsimp only
    rw [if_neg (Nat.not_lt.mpr (Nat.le_trans hfits.plain.short (by decide)))]
    exact hrec.bind (.change _ _)
  · have hthere : (a.withFile id name).names id = some name := if_pos rfl
    refine h₁.of_aside hkept hlive h.directory h.pageSize hcovers
      (fun f hne => ⟨if_neg hne, if_neg hne, lookup_insert_of_ne hne⟩) (fun f x _ hx => ?_) (fun x hx => ?_)
      fun hno => nomatch hno.symm.trans hthere
    · obtain ⟨hnx, -⟩ := h.disk.sane.named hx
      exact hsaved.node _ hnx.ne_catalog hnx.ne_temporary
    · obtain rfl : name = x := Option.some.inj (hthere.symm.trans hx)
      refine ⟨m.disk.nextNode, ∅, ?_, (hsaved.node _ hname.ne_catalog hname.ne_temporary).trans hnew.node,
        by simp⟩
      simp

theorem exists_start (h : m.Archives dir place size a) (hfits : dir.Fits name) :
    (liftM (Disk.exists? (dir.join name)) : Task Mounted StorageError Bool).Gives m
      (m.disk.node? place name).isSome m :=
  Task.Gives.inPart (s := m) (Disk.exists_start h.disk.houses hfits)

/-- What stands under the name of a new file is removed first. -/
theorem createWithId (h : m.Archives dir place size a) (hvalid : id ≠ FileId.none)
    (hname : Component.FileName name) (hfits : dir.Fits name) (hfree : ∀ f, a.names f ≠ some name) :
    ∃ m', (Mounted.createWithId id name).Gives m () m' ∧
      m'.Archives dir place size (a.withFile id name) ∧
      m'.volume.catalog = m.volume.catalog.insert id name := by
  have hbegin {m' : Mounted} (hrest : (do
      if (← Disk.exists? (dir.join name)) then Disk.removeFile (dir.join name)
      Mounted.register (dir.join name) size id name : Task Mounted StorageError Unit).Gives m () m') :
      (Mounted.createWithId id name).Gives m () m' := by
    rw [createWithId_eq]
    refine (Task.Gives.state m).bind ?_
    dsimp only
    rw [h.idOf?_eq_none hfree, h.directory, h.pageSize]
    exact hrest
  have hexists := h.exists_start hfits
  cases hn : m.disk.node? place name with
  | none =>
    rw [hn] at hexists
    obtain ⟨m', hg, hm⟩ := h.register hvalid hname hfits hfree hn
    refine ⟨m', hbegin (hexists.bind ?_), hm⟩
    exact hg
  | some n =>
    rw [hn] at hexists
    have hremove := Disk.removeFile_gives h.disk.houses hfits hn h.live
    have hgone := h.of_onlyAt (.remove h.disk.houses name) h.live hfree hname.ne_catalog
    obtain ⟨m', hg, hm⟩ := hgone.register hvalid hname hfits hfree (by rw [Disk.node?_remove, if_pos rfl])
    refine ⟨m', hbegin (hexists.bind ?_), hm⟩
    exact hremove.inPart.bind hg

/-- No file can be made under a name that does not fit. -/
theorem createWithId_misfit (h : m.Archives dir place size a) (id : FileId) (hname : Component.FileName name)
    (hmisfit : ¬ dir.Fits name) : ∃ cause, (Mounted.createWithId id name).start m = (.error cause, m) := by
  obtain ⟨e, he⟩ := h.disk.houses.toLeads.resolve_misfit hname hmisfit
  have hfree : ∀ f, a.names f ≠ some name := fun f hf => hmisfit (h.disk.sane.named hf).2
  have hexists : (Disk.exists? (dir.join name)).Gives m.disk false m.disk :=
    Disk.exists?_false (by rw [Disk.lookup?, he])
  have hlocate : (Disk.createFile (dir.join name)).start m.disk = (.error e, m.disk) := by
    have hchecked : (Task.ofChecked (m.disk.resolve (dir.join name)) : Task Disk IoError Location).start m.disk =
        (.error e, m.disk) := by rw [Task.start_ofChecked, he]
    rw [Disk.createFile]
    refine Task.start_bind_error (Task.start_bind_error ?_ _) _
    rw [Disk.locate, (Task.Gives.state m.disk).start_bind]
    exact Task.start_bind_error hchecked _
  have hcreate : (PagedFile.create (dir.join name) size).start m.disk =
      (.error (e.map Within.embed), m.disk) := by
    rw [PagedFile.create, hexists.embed.start_bind]
    exact Task.start_bind_error (Task.start_embed_error hlocate) _
  have hregister : (Mounted.register (dir.join name) size id name).start m =
      (.error ((e.map Within.embed).map Within.embed), m) :=
    Task.start_bind_error (Task.start_inPart_error (s := m) hcreate) _
  have hall : (Mounted.createWithId id name).start m = (Mounted.register (dir.join name) size id name).start m := by
    rw [createWithId_eq, (Task.Gives.state m).start_bind]
    dsimp only
    rw [h.idOf?_eq_none hfree, h.directory, h.pageSize]
    exact (Task.Gives.inPart (s := m) hexists).start_bind _
  exact ⟨_, hall.trans hregister⟩

theorem createWithId_taken (h : m.Archives dir place size a) {f : FileId} (hf : a.names f = some name) :
    (Mounted.createWithId id name).start m = (refuse (.fileExists name), m) := by
  rw [createWithId_eq, (Task.Gives.state m).start_bind]
  dsimp only
  rw [h.idOf?_eq_some.mpr hf]
  rfl

/-- A file is made under the next id. -/
theorem create (h : m.Archives dir place size a) (hnext : m.volume.catalog.nextId ≠ FileId.none)
    (hname : Component.FileName name) (hfits : dir.Fits name) (hfree : ∀ f, a.names f ≠ some name) :
    ∃ m', (Mounted.create name).Gives m m.volume.catalog.nextId m' := by
  obtain ⟨m₁, hg, h₁, -⟩ := h.reserve hnext
  obtain ⟨m', hmade, -⟩ := h₁.createWithId hnext hname hfits hfree
  exact ⟨m', hg.bind (hmade.bind (.pure _ m'))⟩

/-- A file is made under a name, or nothing happens. -/
theorem createWithId_ends (h : m.Archives dir place size a) (hvalid : id ≠ FileId.none)
    (hname : Component.FileName name) : (Mounted.createWithId id name).Ends m
      (fun _ m' => (∀ f, a.names f ≠ some name) ∧ m'.Archives dir place size (a.withFile id name) ∧
        m'.volume.catalog = m.volume.catalog.insert id name) fun _ m' => m' = m := by
  by_cases hfree : ∀ f, a.names f ≠ some name
  · by_cases hfits : dir.Fits name
    · obtain ⟨m', hg, hm⟩ := h.createWithId hvalid hname hfits hfree
      exact hg.ends ⟨hfree, hm⟩
    · obtain ⟨cause, hs⟩ := h.createWithId_misfit id hname hfits
      exact .error hs rfl
  · obtain ⟨f, hf⟩ := not_forall.mp hfree
    exact .error (h.createWithId_taken (not_not.mp hf)) rfl

/-- The id of a new file is the next one. -/
theorem create_ends (h : m.Archives dir place size a) (hnext : m.volume.catalog.nextId ≠ FileId.none)
    (hname : Component.FileName name) : (Mounted.create name).Ends m
      (fun id m' => id = m.volume.catalog.nextId ∧ (∀ f, a.names f ≠ some name) ∧
        m'.Archives dir place size (a.withFile id name) ∧ id < m'.volume.catalog.nextId)
      fun _ m' => m'.Archives dir place size a ∧ m.volume.catalog.nextId < m'.volume.catalog.nextId := by
  obtain ⟨m₁, hg, h₁, hid⟩ := h.reserve hnext
  have hlt : m.volume.catalog.nextId < m₁.volume.catalog.nextId := hid ▸ (FileId.lt_succ hnext).1
  refine hg.bind_ends (.bind ((h₁.createWithId_ends hnext hname).mono (fun _ _ hm => hm) fun _ m' hm => ?_)
    fun _ m' ⟨hfree, hm, hc⟩ => (Task.Gives.pure _ m').ends ⟨rfl, hfree, hm, ?_⟩)
  · rw [hm]
    exact ⟨h₁, hlt⟩
  · rw [hc]
    exact Catalog.lt_nextId_insert _ hnext name

end Archives

end RefStore.Mounted
