import RefStore.Proofs.ArchivePages
import RefStore.Proofs.Reopenings

/-!
# Opening a directory of component files

A directory without a catalog is mounted with no files, and a directory that was mounted before is mounted
with the files and pages that it had. Main statements: `Mounted.Archives.reopens`, `Mounted.Archives.of_new`.
-/

namespace RefStore

/-- Nothing is mounted with pages of no bytes or without a pool. -/
theorem Volume.mount_positive {d d' : Disk} {dir : Path} {size pool : Nat} {v : Volume}
    (h : (mount dir size pool).Gives d v d') : 0 < pool ∧ 0 < size := by
  obtain ⟨_, _, -, h⟩ := Task.bind_gives h
  obtain ⟨_, _, -, h⟩ := Task.bind_gives h
  obtain ⟨_, _, -, h⟩ := Task.bind_gives h
  obtain ⟨_, _, hpool, -⟩ := Task.bind_gives h
  obtain ⟨hcreate, -⟩ := Task.gives_ofChecked hpool
  by_contra hno
  rw [Pool.create, if_neg hno] at hcreate
  cases hcreate

theorem Disk.Houses.archives_empty {d : Disk} {dir : Path} {place : Location} {size : Nat} (h : d.Houses dir place)
    (hno : d.node? place Catalog.fileName = none) : d.Archives dir place size .empty := by
  refine ⟨h, ⟨.empty, ?_, ⟨fun _ => Std.TreeMap.getElem?_emptyc, nofun⟩, nofun⟩, nofun, .empty⟩
  rw [bytes?, hno]
  rfl

namespace Mounted.Archives

variable {m : Mounted} {dir : Path} {place : Location} {size pool : Nat} {a : Archive} {d d' disk : Disk}
  {v : Volume}

theorem of_disk (h : d.Archives dir place size a) (hlive : d.outage = none)
    (hroom : dir.Fits Catalog.temporaryName) (hs : 0 < size) (hp : 0 < pool) :
    ∃ v, (Volume.mount dir size pool).Gives d v d ∧ Archives dir place size a ⟨d, v⟩ := by
  obtain ⟨c, hc, hcovers⟩ := h.catalog
  obtain ⟨files, hmount, hin, hout⟩ : ∃ files : Std.TreeMap FileId OpenFile,
      (Volume.mount dir size pool).Survives d (fun _ => True) ⟨dir, size, pool, c, files⟩ d ∧ _ :=
    Volume.mount_opens h.houses hs (fits_catalog hroom) hp hc hcovers.lists
      fun _ _ hid => ⟨(h.sane.named hid).2, h.file hid⟩
  refine ⟨_, hmount.gives_of_live hlive hlive, h, hlive, hroom, hs, rfl, rfl, hcovers, fun hid => ?_, hout⟩
  obtain ⟨n, hfile, hn⟩ := hin hid
  exact ⟨n, ∅, hfile, hn, by simp⟩

/-- The directory can be opened again, and has the same files and pages. -/
theorem reopens (h : m.Archives dir place size a) (hp : 0 < pool) :
    ∃ v, (Volume.mount dir size pool).Gives m.disk v m.disk ∧ Archives dir place size a ⟨m.disk, v⟩ :=
  of_disk h.disk h.live h.room h.positive hp

theorem of_reopened (h : m.Archives dir place size a) (hm : (Volume.mount dir size pool).Gives m.disk v d) :
    Archives dir place size a ⟨d, v⟩ := by
  obtain ⟨v', hg, hv⟩ := h.reopens (Volume.mount_positive hm).1
  obtain ⟨rfl, rfl⟩ := hg.unique hm
  exact hv

/-- A directory without a catalog, whatever files there are. -/
theorem of_new (hmade : (Disk.makeDirectories dir).Gives disk () d) (hlive : d.outage = none)
    (hh : d.Houses dir place) (hno : d.node? place Catalog.fileName = none)
    (hroom : dir.Fits Catalog.temporaryName) (hm : (Volume.mount dir size pool).Gives disk v d') :
    Archives dir place size .empty ⟨d', v⟩ := by
  have hsame : (Volume.mount dir size pool).start disk = (Volume.mount dir size pool).start d := by
    have hthere : (Disk.makeDirectories dir).Survives d (fun _ => True) () d :=
      Disk.makeDirectories_survives hh.toLeads
    have hstay := hthere.gives_of_live hlive hlive
    rw [Volume.mount, hmade.embed.start_bind, hstay.embed.start_bind]
  obtain ⟨hp, hs⟩ := Volume.mount_positive hm
  obtain ⟨v', hg, hv⟩ := of_disk (hh.archives_empty hno) hlive hroom hs hp
  obtain ⟨rfl, rfl⟩ := hg.unique (hsame.symm.trans hm)
  exact hv

end Mounted.Archives

end RefStore
