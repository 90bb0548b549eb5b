import RefStore.Proofs.Maps
import RefStore.Proofs.Residents
import RefStore.Proofs.Stocks

/-!
# Changing what a volume holds

A mounted volume mirrors the stock that its disk keeps. Deleting a file, creating one and installing a
page change both alike; when the disk fails on the way it keeps the old stock or the new one, or for a
page the new one with the page written in part.
-/

namespace RefStore.Mounted

variable {m : Mounted} {dir : Path} {place : Location} {size : Nat} {s : Stock} {id : FileId}
  {name : String} {cut : Disk → Prop}

/-- A volume in memory that agrees with the stock on its disk. -/
structure Mirrors (dir : Path) (place : Location) (size : Nat) (s : Stock) (m : Mounted) : Prop where
  stocks : m.disk.Stocks dir place size s
  directory : m.volume.directory = dir
  pageSize : m.volume.pageSize = size
  catalog : m.volume.catalog.Lists s.names
  file : ∀ {id name}, s.names id = some name → ∃ n resident,
    m.volume.files[id]? = some ⟨name, .handle dir name n size (s.pages id), resident⟩ ∧
      m.disk.node? place name = some n ∧
      ∀ (i : PageIndex) p, resident[i]? = some p → (s.pages id)[i.toNat]? = some p
  noFile : ∀ {id}, s.names id = none → m.volume.files[id]? = none

theorem openFile_survives {f : OpenFile} (h : m.volume.files[id]? = some f) :
    (openFile id).Survives m cut f m := by
  refine .state (fun o => rfl) ?_
  rw [h]
  exact .pure f m

/-- Saving another catalog: until it has its name, only the temporary file changes. -/
theorem recatalog_survives {g : Catalog → Catalog} (h : m.disk.Houses dir place)
    (hdir : m.volume.directory = dir) (hc : (g m.volume.catalog).Encodable)
    (hf : dir.Fits Catalog.fileName) (ht : dir.Fits Catalog.temporaryName)
    (hcut : ∀ d, Disk.OnlyAt dir place Catalog.temporaryName m.disk d → cut d)
    (hcut' : ∀ d, Catalog.Saved dir place (g m.volume.catalog) m.disk d → cut d) :
    ∃ d, (recatalog g).Survives m cut ()
        ⟨d, { m.volume with catalog := g m.volume.catalog }⟩ ∧
      Catalog.Saved dir place (g m.volume.catalog) m.disk d := by
  obtain ⟨d, hs, hd⟩ := Catalog.save_survives hc h hf ht hcut hcut'
  refine ⟨d, .bind (.change fun o => rfl) (.state (fun o => rfl) ?_), hd⟩
  rw [← hdir] at hs
  exact Task.Survives.onPart (s := (⟨m.disk, { m.volume with catalog := g m.volume.catalog }⟩ : Mounted)) hs

namespace Mirrors

theorem sane_without (h : s.Sane dir size) (id : FileId) : (s.without id).Sane dir size := by
  have hsub {f : FileId} {x : String} (hf : (s.without id).names f = some x) : s.names f = some x :=
    (Stock.names_without.mp hf).2
  exact ⟨fun hf => h.named (hsub hf), fun hf hf' => h.inj (hsub hf) (hsub hf'),
    fun hf => h.valid (hsub hf), fun hf => h.bounded (hsub hf)⟩

/-- A file goes from the catalog before it goes from the disk. -/
theorem delete_survives (h : m.Mirrors dir place size s) (hid : s.names id = some name)
    (hcut : ∀ d, d.Stocks dir place size s → cut d)
    (hcut' : ∀ d, d.Stocks dir place size (s.without id) → cut d) :
    ∃ m', (Mounted.delete id).Survives m cut () m' ∧ m'.Mirrors dir place size (s.without id) := by
  obtain ⟨n, resident, hf, hn, -⟩ := h.file hid
  obtain ⟨hdata, hfits⟩ := h.stocks.sane.named hid
  have hsane := sane_without h.stocks.sane id
  have hlists := h.catalog.erase id
  have henc := hlists.encodable hsane.valid fun hx => (hsane.named hx).1.short
  set m₁ : Mounted := ⟨m.disk, { m.volume with files := m.volume.files.erase id }⟩
  have hsaved (d : Disk) (hd : Catalog.Saved dir place (m.volume.catalog.erase id) m.disk d) :
      d.Stocks dir place size (s.without id) :=
    h.stocks.of_saved henc hlists hd hsane fun hx => h.stocks.file (Stock.names_without.mp hx).2
  obtain ⟨d, hrec, hd⟩ := recatalog_survives (m := m₁) (g := (·.erase id)) h.stocks.houses h.directory
    henc (hdata.fits_catalog hfits) (hdata.fits_temporary hfits)
    (fun d ho => hcut d (h.stocks.of_temporary ho)) (fun d hd => hcut' d (hsaved d hd))
  have hgone : d.Stocks dir place size (s.without id) := hsaved d hd
  have hnode : d.node? place name = some n :=
    (hd.node _ hdata.ne_catalog hdata.ne_temporary).trans hn
  have hfree (f : FileId) : (s.without id).names f ≠ some name := by
    intro hx
    obtain ⟨hne, hx⟩ := Stock.names_without.mp hx
    exact hne (h.stocks.sane.inj hx hid)
  have hremoved : (d.effect (.remove (place ++ [name]))).Stocks dir place size (s.without id) :=
    hgone.of_onlyAt (.remove hgone.houses name) hfree hdata.ne_catalog hdata.ne_log
  have hrm := Disk.removeFile_survives hgone.houses hfits hnode (hcut' _ hgone.restart)
    (hcut' _ hremoved.restart)
  have hreg : m.volume.catalog.names[id]?.isSome = true := by rw [h.catalog.name, hid]; rfl
  refine ⟨⟨d.effect (.remove (place ++ [name])),
    { m₁.volume with catalog := m.volume.catalog.erase id }⟩, ?_, ?_⟩
  · refine .bind (openFile_survives hf) (.bind (.change fun o => rfl) (.state (fun o => rfl) ?_))
    dsimp only
    rw [if_pos hreg]
    exact .bind hrec hrm.inPart
  · refine ⟨hremoved, h.directory, h.pageSize, hlists, fun {f x} hx => ?_, fun {f} hf => ?_⟩
    · obtain ⟨hne, hx⟩ := Stock.names_without.mp hx
      obtain ⟨k, res, hfile, hk, hres⟩ := h.file hx
      have hname : x ≠ name := fun he => hne (h.stocks.sane.inj hx (he ▸ hid))
      obtain ⟨hdx, -⟩ := h.stocks.sane.named hx
      refine ⟨k, res, ?_, ?_, hres⟩
      · rw [lookup_erase_of_ne hne]
        exact hfile
      · rw [Disk.node?_remove, if_neg hname]
        exact (hd.node _ hdx.ne_catalog hdx.ne_temporary).trans hk
    · rw [lookup_erase]
      split
      · rfl
      · next hne => exact h.noFile ((Stock.names_without_eq_none.mp hf).resolve_left hne)

theorem sane_withFile (h : s.Sane dir size) (hvalid : id ≠ FileId.none)
    (hdata : Volume.DataName name) (hfits : dir.Fits name) (hfree : ∀ f, s.names f ≠ some name) :
    (s.withFile id name).Sane dir size := by
  refine ⟨fun hf => ?_, fun hf hf' => ?_, fun hf => ?_, fun hf => ?_⟩
  · rcases Stock.names_withFile.mp hf with ⟨-, rfl⟩ | ⟨-, hf⟩
    · exact ⟨hdata, hfits⟩
    · exact h.named hf
  · rcases Stock.names_withFile.mp hf with ⟨rfl, rfl⟩ | ⟨-, hold⟩ <;>
      rcases Stock.names_withFile.mp hf' with ⟨rfl, hx⟩ | ⟨-, hold'⟩
    · rfl
    · exact absurd hold' (hfree _)
    · exact absurd (hx ▸ hold) (hfree _)
    · exact h.inj hold hold'
  · rcases Stock.names_withFile.mp hf with ⟨rfl, -⟩ | ⟨-, hf⟩
    · exact hvalid
    · exact h.valid hf
  · rcases Stock.names_withFile.mp hf with ⟨rfl, -⟩ | ⟨hne, hf⟩
    · simp
    · rw [Stock.pages_withFile hne]
      exact h.bounded hf

/-- What stands under a name that is not registered does not matter. -/
theorem of_onlyAt (h : m.Mirrors dir place size s) {d : Disk} {x : String}
    (ho : Disk.OnlyAt dir place x m.disk d) (hx : ∀ f, s.names f ≠ some x)
    (hc : x ≠ Catalog.fileName) (hl : x ≠ Log.fileName) :
    Mirrors dir place size s ⟨d, m.volume⟩ where
  stocks := h.stocks.of_onlyAt ho hx hc hl
  directory := h.directory
  pageSize := h.pageSize
  catalog := h.catalog
  file {f y} hf := by
    obtain ⟨n, res, hfile, hn, hres⟩ := h.file hf
    exact ⟨n, res, hfile, (ho.node y fun he => hx f (he ▸ hf)).trans hn, hres⟩
  noFile := h.noFile

theorem idOf?_eq_none (h : m.Mirrors dir place size s) (hfree : ∀ f, s.names f ≠ some name) :
    m.volume.idOf? name = none := by
  cases hf : m.volume.idOf? name with
  | none => rfl
  | some f => exact absurd ((h.catalog.idOf?_eq_some h.stocks.sane.inj).mp hf) (hfree f)

/-- A file is there before it is in the catalog. -/
theorem register_survives (h : m.Mirrors dir place size s) (hvalid : id ≠ FileId.none)
    (hdata : Volume.DataName name) (hfits : dir.Fits name) (hfree : ∀ f, s.names f ≠ some name)
    (hnone : m.disk.node? place name = none) (hcut : ∀ d, d.Stocks dir place size s → cut d)
    (hcut' : ∀ d, d.Stocks dir place size (s.withFile id name) → cut d) :
    ∃ m', (register (dir.join name) size id name).Survives m cut () m' ∧
      m'.Mirrors dir place size (s.withFile id name) := by
  have hsane := sane_withFile h.stocks.sane hvalid hdata hfits hfree
  have hlists := h.catalog.insert hvalid name
  have henc := hlists.encodable hsane.valid fun hx => (hsane.named hx).1.short
  have hmade : (PagedFile.create (dir.join name) size).Survives m.disk cut _ _ :=
    PagedFile.create_survives h.stocks.houses hfits hnone fun d ho =>
      hcut d (h.stocks.of_onlyAt ho hfree hdata.ne_catalog hdata.ne_log)
  have honly := Disk.OnlyAt.addFile h.stocks.houses hnone
  have h₁ := h.of_onlyAt honly hfree hdata.ne_catalog hdata.ne_log
  have hnew : (m.disk.effect (.addFile (place ++ [name]))).Paged place name m.disk.nextNode size [] := by
    refine ⟨by rw [Disk.node?_addFile, if_pos rfl], ?_, by simp⟩
    rw [Disk.bytes?_addFile h.stocks.houses, if_pos rfl]
    rfl
  have hsaved (d : Disk) (hd : Catalog.Saved dir place (m.volume.catalog.insert id name)
      (m.disk.effect (.addFile (place ++ [name]))) d) : d.Stocks dir place size (s.withFile id name) := by
    refine h₁.stocks.of_saved henc hlists hd hsane fun {f x} hf => ?_
    show ∃ n, (m.disk.effect (.addFile (place ++ [name]))).Paged place x n size ((s.withFile id name).pages f)
    rcases Stock.names_withFile.mp hf with ⟨rfl, rfl⟩ | ⟨hne, hf⟩
    · rw [Stock.pages_withFile_self]
      exact ⟨_, hnew⟩
    · rw [Stock.pages_withFile hne]
      exact h₁.stocks.file hf
  obtain ⟨d, hrec, hd⟩ := recatalog_survives
    (m := ⟨m.disk.effect (.addFile (place ++ [name])), m.volume⟩) (g := (·.insert id name))
    h₁.stocks.houses h.directory henc (hdata.fits_catalog hfits) (hdata.fits_temporary hfits)
    (fun d ho => hcut d (h₁.stocks.of_temporary ho)) (fun d hd => hcut' d (hsaved d hd))
  refine ⟨⟨d, { m.volume with
    catalog := m.volume.catalog.insert id name
    files := m.volume.files.insert id ⟨name, .handle dir name m.disk.nextNode size [], ∅⟩ }⟩, ?_, ?_⟩
  · refine .bind hmade.inPart ?_
    dsimp only
    rw [if_neg (Nat.not_lt.mpr (Nat.le_trans hdata.plain.short (by decide)))]
    exact .bind hrec (.change fun o => rfl)
  · refine ⟨hsaved d hd, h.directory, h.pageSize, hlists, fun {f x} hf => ?_, fun {f} hf => ?_⟩
    · rcases Stock.names_withFile.mp hf with ⟨rfl, rfl⟩ | ⟨hne, hf⟩
      · refine ⟨m.disk.nextNode, ∅, ?_, ?_, by simp⟩
        · simp
        · exact (hd.node _ hdata.ne_catalog hdata.ne_temporary).trans hnew.node
      · obtain ⟨n, res, hfile, hn, hres⟩ := h₁.file hf
        obtain ⟨hdx, -⟩ := h.stocks.sane.named hf
        refine ⟨n, res, ?_, (hd.node _ hdx.ne_catalog hdx.ne_temporary).trans hn, ?_⟩
        · rw [lookup_insert_of_ne hne, Stock.pages_withFile hne]
          exact hfile
        · rw [Stock.pages_withFile hne]
          exact hres
    · obtain ⟨hne, hf⟩ := Stock.names_withFile_eq_none.mp hf
      rw [lookup_insert_of_ne hne]
      exact h.noFile hf

/-- What stands under the name of a new file is removed first. -/
theorem createWithId_survives (h : m.Mirrors dir place size s) (hvalid : id ≠ FileId.none)
    (hdata : Volume.DataName name) (hfits : dir.Fits name) (hfree : ∀ f, s.names f ≠ some name)
    (hcut : ∀ d, d.Stocks dir place size s → cut d)
    (hcut' : ∀ d, d.Stocks dir place size (s.withFile id name) → cut d) :
    ∃ m', (createWithId id name).Survives m cut () m' ∧
      m'.Mirrors dir place size (s.withFile id name) := by
  have hexists : (Disk.exists? (dir.join name)).Survives m.disk cut
      (m.disk.node? place name).isSome m.disk :=
    .ofReads fun o => Disk.exists_start (h.stocks.houses.withOutage o) hfits
  have hbegin {m' : Mounted} (hrest : (do
      if (← Disk.exists? (dir.join name)) then Disk.removeFile (dir.join name)
      register (dir.join name) size id name : Task Mounted StorageError Unit).Survives m cut () m') :
      (createWithId id name).Survives m cut () m' := by
    rw [createWithId_eq]
    refine .state (fun o => rfl) ?_
    dsimp only
    rw [h.idOf?_eq_none hfree, h.directory, h.pageSize]
    exact hrest
  cases hn : m.disk.node? place name with
  | none =>
    rw [hn] at hexists
    obtain ⟨m', hs, hm⟩ := h.register_survives hvalid hdata hfits hfree hn hcut hcut'
    refine ⟨m', hbegin (.bind hexists.inPart ?_), hm⟩
    exact hs
  | some n =>
    rw [hn] at hexists
    have honly := Disk.OnlyAt.remove h.stocks.houses name
    have hgone := h.of_onlyAt honly hfree hdata.ne_catalog hdata.ne_log
    have hremove := Disk.removeFile_survives h.stocks.houses hfits hn (hcut _ h.stocks.restart)
      (hcut _ hgone.stocks.restart)
    obtain ⟨m', hs, hm⟩ := hgone.register_survives hvalid hdata hfits hfree
      (by rw [Disk.node?_remove, if_pos rfl]) hcut hcut'
    refine ⟨m', hbegin (.bind hexists.inPart ?_), hm⟩
    exact .bind hremove.inPart hs

end Mirrors

end RefStore.Mounted
