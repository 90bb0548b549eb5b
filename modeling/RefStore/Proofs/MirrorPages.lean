import RefStore.Proofs.Maps
import RefStore.Proofs.Mirrors

/-!
# Pages of a volume on its disk

Reading, installing and forcing out the pages of a volume that mirrors its disk. A page that was
installed in part when the disk failed has its first bytes from the new page and the rest from the old.
-/

namespace RefStore

theorem Stock.Sane.length_lt {dir : Path} {size : Nat} {s : Stock} (h : s.Sane dir size)
    {id : FileId} {name : String} (hid : s.names id = some name) (hs : 0 < size) :
    (s.pages id).length < UInt64.size := by
  have hb := h.bounded hid
  have := Nat.le_mul_of_pos_right (s.pages id).length hs
  simp only [Disk.longestFile, UInt64.size] at hb ⊢
  omega

namespace Mounted.Mirrors

variable {m : Mounted} {dir : Path} {place : Location} {size : Nat} {s : Stock} {id : FileId}
  {name : String} {i : PageIndex} {p page : Page} {cut : Disk → Prop}

theorem withOutage (h : m.Mirrors dir place size s) (o : Option Outage) :
    (withOutage o m).Mirrors dir place size s where
  stocks := h.stocks.withOutage o
  directory := h.directory
  pageSize := h.pageSize
  catalog := h.catalog
  file := h.file
  noFile := h.noFile

theorem readPage_survives (h : m.Mirrors dir place size s) (hid : s.names id = some name) {n : Nat}
    (hn : m.disk.node? place name = some n) (hs : 0 < size) (hp : (s.pages id)[i.toNat]? = some p) :
    ((PagedFile.handle dir name n size (s.pages id)).readPage i size).Survives m.disk cut p m.disk := by
  obtain ⟨n', hpaged⟩ := h.stocks.file hid
  obtain rfl : n = n' := Option.some.inj (hn.symm.trans hpaged.node)
  exact .ofReads fun o => PagedFile.readPage_start ⟨hpaged.node, hpaged.bytes, hpaged.sizes⟩
    (h.stocks.sane.length_lt hid hs) hp

/-- The page as it stands, zero past the end. -/
theorem loadUnverified_survives (h : m.Mirrors dir place size s) (hid : s.names id = some name)
    (hs : 0 < size) (i : PageIndex) :
    (loadUnverified id i).Survives m cut (Page.pageAt size (s.pages id) i) m := by
  obtain ⟨n, res, hf, hn, -⟩ := h.file hid
  refine .bind (openFile_survives hf) (.state (fun o => rfl) ?_)
  have hcount : i < (PagedFile.handle dir name n size (s.pages id)).pageCount ↔
      i.toNat < (s.pages id).length := PagedFile.lt_pageCount (h.stocks.sane.length_lt hid hs)
  dsimp only
  rw [h.pageSize, Page.pageAt]
  cases hp : (s.pages id)[i.toNat]? with
  | some p =>
    rw [if_pos (hcount.mpr (List.getElem?_eq_some_iff.mp hp).1)]
    exact (h.readPage_survives hid hn hs hp).inPart
  | none =>
    rw [if_neg (hcount.not.mpr (Nat.not_lt.mpr (List.getElem?_eq_none_iff.mp hp)))]
    exact .pure _ m

theorem installPage_survives (h : m.Mirrors dir place size s) (hid : s.names id = some name)
    (hi : i.toNat ≤ (s.pages id).length) (hps : page.size = size) (hs : 8 ≤ size)
    (hroom : (i.toNat + 1) * size ≤ Disk.longestFile) (hcut : ∀ d, d.Stocks dir place size s → cut d)
    (hcut' : ∀ d k, d.Stocks dir place size (s.withPages id (Page.placed (s.pages id) i
      (Page.laid k (Page.pageAt size (s.pages id) i) page.withSeal))) → cut d) :
    ∃ m', (installPage id i page).Survives m cut () m' ∧
      m'.Mirrors dir place size (s.withPages id (Page.placed (s.pages id) i page.withSeal)) := by
  obtain ⟨n, res, hf, hn, hres⟩ := h.file hid
  obtain ⟨hdata, -⟩ := h.stocks.sane.named hid
  obtain ⟨n', hpaged⟩ := h.stocks.file hid
  obtain rfl : n = n' := Option.some.inj (hn.symm.trans hpaged.node)
  have hsize : page.withSeal.size = size := (Page.size_withSeal (by omega)).trans hps
  have hlong (q : Page) : (Page.placed (s.pages id) i q).length * size ≤ Disk.longestFile := by
    rw [← Page.filled_of_le 0 hi]
    exact Page.filled_bounded (h.stocks.sane.bounded hid) hroom
  have hpages (d : Disk) (ho : Disk.OnlyAt dir place name m.disk d) (q : Page)
      (hq : d.Paged place name n size (Page.placed (s.pages id) i q)) :
      d.Stocks dir place size (s.withPages id (Page.placed (s.pages id) i q)) :=
    h.stocks.withPages hid ho hq (hlong q)
  obtain ⟨d, hwrite, ho, hd⟩ := PagedFile.writePage_survives h.stocks.houses hpaged hi
    (h.stocks.sane.length_lt hid (by omega)) hsize (by omega) hroom (hcut _ h.stocks.restart)
    fun d k ho hk => hcut' d k (hpages d ho _ hk)
  refine ⟨⟨d, { m.volume with files := m.volume.files.insert id ⟨name,
    .handle dir name n size (Page.placed (s.pages id) i page.withSeal),
    res.insert i page.withSeal⟩ }⟩, ?_, ?_⟩
  · refine .bind (openFile_survives hf) (.bind (.ofChecked (Page.sealed_eq (by omega)) m) ?_)
    exact .bind hwrite.inPart (.change fun o => rfl)
  · refine ⟨hpages d ho _ hd, h.directory, h.pageSize, h.catalog, fun {f x} hx => ?_, fun {f} hx => ?_⟩
    · by_cases hfid : f = id
      · subst hfid
        obtain rfl : name = x := Option.some.inj (hid.symm.trans hx)
        refine ⟨n, res.insert i page.withSeal, ?_, hd.node, fun j q hq => ?_⟩
        · simp [Stock.withPages]
        · simp only [Stock.withPages, if_true]
          exact Page.placed_of_insert hi hres hq
      · obtain ⟨k, res', hfile, hk, hres'⟩ := h.file hx
        have hne : x ≠ name := fun he => hfid (h.stocks.sane.inj hx (he ▸ hid))
        refine ⟨k, res', ?_, (ho.node x hne).trans hk, ?_⟩ <;> simp only [Stock.withPages, if_neg hfid]
        · rw [lookup_insert_of_ne hfid]
          exact hfile
        · exact hres'
    · have hne : f ≠ id := by
        rintro rfl
        simp only [Stock.withPages] at hx
        rw [hid] at hx
        cases hx
      rw [lookup_insert_of_ne hne]
      exact h.noFile hx

theorem sync_survives (h : m.Mirrors dir place size s) (hid : s.names id = some name)
    (hcut : ∀ d, d.Stocks dir place size s → cut d) : (sync id).Survives m cut () m := by
  obtain ⟨n, res, hf, -⟩ := h.file hid
  exact .bind (openFile_survives hf) (Disk.sync_survives (hcut _ h.stocks.restart) n).embed.inPart

theorem syncs_survive (h : m.Mirrors dir place size s) {ids : List FileId}
    (hids : ∀ id ∈ ids, s.names id ≠ none) (hcut : ∀ d, d.Stocks dir place size s → cut d) :
    (ids.forM sync).Survives m cut () m := by
  induction ids with
  | nil => exact .pure () m
  | cons id ids ih =>
    obtain ⟨name, hid⟩ := Option.ne_none_iff_exists'.mp (hids id List.mem_cons_self)
    exact .bind (h.sync_survives hid hcut) (ih fun f hf => hids f (List.mem_cons_of_mem _ hf))

theorem syncAll_survives (h : m.Mirrors dir place size s)
    (hcut : ∀ d, d.Stocks dir place size s → cut d) : syncAll.Survives m cut () m := by
  refine .state (fun o => rfl) (h.syncs_survive (fun id hm hnone => ?_) hcut)
  rw [Std.TreeMap.mem_keys, ← Std.TreeMap.isSome_getElem?_iff_mem, h.noFile hnone] at hm
  cases hm

end Mounted.Mirrors

end RefStore
