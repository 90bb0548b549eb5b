import RefStore.Proofs.EmptyDirectories
import RefStore.Proofs.VolumeRuns

/-!
# What a volume answers about pages

After any run, counting and loading pages answer what follows from the ledger alone: it does not matter which
pages are in memory, which files were closed and how often the directory was opened. Main statement:
`Volume.Reached.pages_answered`.
-/

namespace RefStore.Volume

namespace Ledger

/-- What it answers to count the pages of a file. -/
def pageCount (l : Ledger) (id : FileId) : Checked StorageError PageIndex :=
  match l.files id with
  | none => refuse (.unknownFile id)
  | some (_, pages) => .ok (UInt64.ofNat (Page.extent pages))

/-- What it answers to load a page: the page that was installed last, with its seal, or a page of zeros where
there is none. -/
def loadPage (size : Nat) (l : Ledger) (id : FileId) (i : PageIndex) : Checked StorageError Page :=
  match l.files id with
  | none => refuse (.unknownFile id)
  | some (_, pages) =>
    if Page.extent pages ≤ i.toNat then refuse (.pageOutOfBounds id i (UInt64.ofNat (Page.extent pages)))
    else
      match Page.newest? pages i with
      | some page => page.sealed
      | none => .ok (.zero size)

variable {dir : Path} {place : Location} {size : Nat} {l : Ledger} {m : Mounted} {id : FileId}
  {name : String} {pages : List (PageIndex × Page)} {i : PageIndex}

theorem archive_names (h : l.files id = some (name, pages)) : (l.archive size).names id = some name := by
  simp [archive, name?, h]

theorem archive_pages (h : l.files id = some (name, pages)) :
    (l.archive size).pages id = Page.installed size pages := by
  simp [archive, h]

theorem archive_names_none (h : l.files id = none) : (l.archive size).names id = none := by
  simp [archive, name?, h]

namespace Stands

theorem extent_lt (h : l.Stands dir place size m) (hf : l.files id = some (name, pages)) :
    Page.extent pages < UInt64.size := by
  have hlt := h.archives.length_lt (archive_names hf)
  rwa [archive_pages hf, Page.length_installed] at hlt

theorem pageCount_start (h : l.Stands dir place size m) (id : FileId) :
    ((Mounted.pageCount id).start m).1 = l.pageCount id := by
  rw [Ledger.pageCount]
  rcases hf : l.files id with _ | ⟨name, pages⟩
  · rw [Mounted.pageCount, Task.start_bind_error (h.archives.openFile_none (archive_names_none hf))]
    rfl
  · have hg := h.archives.pageCount (archive_names hf)
    rw [archive_pages hf, Page.length_installed] at hg
    rw [hg.eq]

/-- A page that was installed has a seal. -/
theorem sealed_newest (h : l.Stands dir place size m) (hf : l.files id = some (name, pages)) {page : Page}
    (hp : Page.newest? pages i = some page) : (page.sealed : Checked StorageError Page) = .ok page.withSeal := by
  obtain ⟨e, he, rfl⟩ := Page.mem_of_newest? hp
  exact Page.sealed_eq (h.sealable hf e he)

theorem loadPage_inside (h : l.Stands dir place size m) (hf : l.files id = some (name, pages))
    (hi : i.toNat < Page.extent pages) :
    l.loadPage size id i = .ok ((Page.newest? pages i).elim (.zero size) Page.withSeal) := by
  simp only [Ledger.loadPage, hf, if_neg (Nat.not_le_of_lt hi)]
  cases hp : Page.newest? pages i with
  | none => rfl
  | some page => exact h.sealed_newest hf hp

theorem loadPage_start (h : l.Stands dir place size m) (id : FileId) (i : PageIndex) :
    ((Mounted.loadPage id i).start m).1 = l.loadPage size id i := by
  rcases hf : l.files id with _ | ⟨name, pages⟩
  · rw [h.archives.loadPage_none (archive_names_none hf), Ledger.loadPage, hf]
  · have hlen : ((l.archive size).pages id).length = Page.extent pages := by
      rw [archive_pages hf, Page.length_installed]
    rcases Nat.lt_or_ge i.toNat (Page.extent pages) with hlt | hge
    · obtain ⟨m', hg, -⟩ := h.archives.loadPage (archive_names hf)
        ((congrArg (·[i.toNat]?) (archive_pages hf)).trans (Page.getElem?_installed hlt))
      rw [hg.eq, h.loadPage_inside hf hlt]
    · rw [h.archives.loadPage_outside (archive_names hf) (by omega), hlen]
      simp only [Ledger.loadPage, hf, if_pos hge]

end Stands

end Ledger

variable {dir : Path} {size : Nat} {l : Ledger} {m : Mounted}

/-- A volume answers what the ledger says, whether pages are in memory or on the disk: the last page that was
installed, with its seal, zeros below the end of the file, and an error past it or for a file that is not
registered. A directory can always be opened again. -/
theorem Reached.pages_answered (h : Reached dir size l m) (id : FileId) (i : PageIndex) :
    ((Mounted.loadPage id i).start m).1 = l.loadPage size id i ∧
      ((Mounted.pageCount id).start m).1 = l.pageCount id ∧
      (∀ name pages, l.files id = some (name, pages) → Page.extent pages < UInt64.size ∧
        (i.toNat < Page.extent pages → ∃ page, l.loadPage size id i = .ok page)) ∧
      (l.files id = none ↔ m.volume.catalog.names[id]? = none) ∧
      ∀ pool, 0 < pool → ∃ v, (mount dir size pool).start m.disk = (.ok v, m.disk) := by
  obtain ⟨place, hs⟩ := h.stands
  refine ⟨hs.loadPage_start id i, hs.pageCount_start id, fun name pages hf => ⟨hs.extent_lt hf, fun hi =>
    ⟨_, hs.loadPage_inside hf hi⟩⟩, ?_, fun pool hp => ?_⟩
  · simp [hs.archives.catalog.lists.name, Ledger.archive, Ledger.name?]
  · obtain ⟨v, hv, -⟩ := hs.archives.reopens hp
    exact ⟨v, hv⟩

/-- A new directory can be mounted. -/
theorem Reached.exists_opened : ∃ m, Reached ⟨["d"]⟩ 8 .empty m ∧ m.volume.catalog.nextId = 0 := by
  obtain ⟨d, hd⟩ := Disk.exists_offersEmpty
  obtain ⟨hlive, place, hh, hnone⟩ := hd.houses Disk.sound_empty rfl
  have hroom : (⟨["d"]⟩ : Path).Fits Catalog.temporaryName := ⟨by constructor <;> decide, by decide⟩
  have hstays : (Disk.makeDirectories ⟨["d"]⟩).Survives d (fun _ => True) () d :=
    Disk.makeDirectories_survives hh.toLeads
  have hmade := hstays.gives_of_live hlive hlive
  obtain ⟨v, hv, -⟩ := Mounted.Archives.of_disk (hh.archives_empty (hnone _)) hlive hroom (by decide : 0 < 8)
    Nat.one_pos
  obtain ⟨rfl, -⟩ := Store.mount_volume ⟨hmade, hd.2⟩ hv
  exact ⟨_, .opened hmade hlive hh (hnone _) hroom hv, rfl⟩

theorem Reached.exists_created : ∃ m, Reached ⟨["d"]⟩ 8 (Ledger.empty.create "a.grb" (.ok 0)) m := by
  obtain ⟨m, h, hnext⟩ := exists_opened
  obtain ⟨place, hs⟩ := h.stands
  have hvalid : m.volume.catalog.nextId ≠ FileId.none := by
    rw [hnext]
    decide
  have hname : Component.FileName "a.grb" := ⟨by decide, "a", .inl rfl⟩
  obtain ⟨m', hg⟩ := hs.archives.create hvalid hname ⟨by constructor <;> decide, by decide⟩ nofun
  rw [hnext] at hg
  exact ⟨m', .step h (.create hname hvalid hg)⟩

theorem pages_answered_after_install : ∃ l m, Reached ⟨["d"]⟩ 8 l m ∧
    ((Mounted.loadPage 0 1).start m).1 = .ok (.zero 8) ∧
    ((Mounted.loadPage 0 2).start m).1 = (Page.zero 8).sealed ∧
    ((Mounted.loadPage 0 3).start m).1 = refuse (.pageOutOfBounds 0 3 3) ∧
    ((Mounted.pageCount 0).start m).1 = .ok 3 := by
  obtain ⟨m, h⟩ := Reached.exists_created
  obtain ⟨place, hs⟩ := h.stands
  have hid : ((Ledger.empty.create "a.grb" (.ok 0)).archive 8).names 0 = some "a.grb" := rfl
  obtain ⟨m', hg, -⟩ : ∃ m', (Mounted.installPage 0 2 (.zero 8)).Gives m () m' ∧ _ :=
    hs.archives.installPage hid (by simp) (by decide) (by decide)
  have hall := Reached.step h (.installPage (by simp) (by decide) hg)
  exact ⟨_, m', hall, (hall.pages_answered 0 1).1, (hall.pages_answered 0 2).1, (hall.pages_answered 0 3).1,
    (hall.pages_answered 0 0).2.1⟩

end RefStore.Volume
