import RefStore.Proofs.Maps
import RefStore.Proofs.Neighbours
import RefStore.Proofs.Stocks

/-!
# Volumes that serve a stock

A mounted volume serves the files of a stock, whatever their names, when each page is in memory or can
be read from the disk. Reading pages and reserving ids leaves the stock as it is. Main statement:
`Serves.loadPage_start`, what comes of loading a page.
-/

namespace RefStore

/-- The bytes of a page stand in a file of the disk. -/
def Disk.Has (d : Disk) (n offset : Nat) (p : Page) : Prop :=
  ∀ j b, p.toList[j]? = some b → (d.content n).toList[offset + j]? = some b

namespace Disk.Has

variable {d d' : Disk} {n offset : Nat} {p : Page}

theorem of_leaves (h : d.Has n offset p) (hl : Disk.Leaves n d d') : d'.Has n offset p := by
  intro j b hb
  rw [hl.content]
  exact h j b hb

theorem le_size (h : d.Has n offset p) (hp : 0 < p.size) : offset + p.size ≤ (d.content n).size := by
  have hlast : p.size - 1 < p.toList.length := by
    rw [Page.length_toList]
    omega
  have := (List.getElem?_eq_some_iff.mp (h _ _ (List.getElem?_eq_getElem hlast))).1
  rw [Contents.length_toList] at this
  omega

theorem readAt (h : d.Has n offset p) (hp : 0 < p.size) :
    (Disk.readAt n offset p.size).Gives d p.bytes d := by
  have hle := h.le_size hp
  have hslice : (d.content n).slice offset p.size = p.bytes := by
    refine Block.toList_injective ?_
    rw [Contents.toList_slice]
    refine List.ext_getElem? fun j => ?_
    by_cases hj : j < p.size
    · have hj' : j < p.toList.length := by rwa [Page.length_toList]
      have hb := List.getElem?_eq_getElem hj'
      rw [List.getElem?_take_of_lt hj, List.getElem?_drop, h j _ hb]
      exact hb.symm
    · rw [List.getElem?_eq_none (by rw [List.length_take]; omega), List.getElem?_eq_none]
      rw [Block.length_toList]
      exact Nat.le_of_not_lt hj
  refine (Task.Gives.state d).bind ?_
  rw [if_neg (by omega), hslice]
  exact .pure _ d

end Disk.Has

/-- An open file whose pages are in memory or on the disk. A file that is still to be read does not stand
where the catalog is written. -/
structure OpenFile.Serves (f : OpenFile) (d : Disk) (temporary : Path) (size : Nat) (ps : List Page) :
    Prop where
  pageSize : f.file.pageSize = size
  pageCount : f.file.pageCount = UInt64.ofNat ps.length
  length_lt : ps.length < UInt64.size
  sizes : ∀ p ∈ ps, p.size = size
  node_lt : f.file.node < d.nextNode
  resident : ∀ (i : PageIndex) p, f.resident[i]? = some p → ps[i.toNat]? = some p
  stored : ∀ (i : PageIndex) p, ps[i.toNat]? = some p → f.resident[i]? = none →
    d.Has f.file.node (i.toNat * size) p ∧ d.lookup? temporary ≠ some (.file f.file.node)

/-- What loading a page of a file comes to: a page in memory is not looked at again. -/
def OpenFile.shown (f : OpenFile) (i : PageIndex) (p : Page) : Checked StorageError Page :=
  if (f.resident[i]?).isSome then .ok p
  else
    (p.verify.mapError fun cause =>
      StorageError.corruption (f.name ++ s!" page {i}: " ++ cause.message)).map fun _ => p

theorem OpenFile.shown_ok {f : OpenFile} {i : PageIndex} {p q : Page} (h : f.shown i p = .ok q) : q = p := by
  rw [shown] at h
  split at h
  · exact (Except.ok.inj h).symm
  · cases hv : p.verify with
    | error cause =>
      rw [hv] at h
      cases h
    | ok u =>
      rw [hv] at h
      exact (Except.ok.inj h).symm

namespace OpenFile.Serves

variable {f : OpenFile} {d d' : Disk} {temporary : Path} {size : Nat} {ps : List Page}
  {i : PageIndex} {p : Page}

theorem of_leaving (h : f.Serves d temporary size ps) {written : Option Nat}
    (hl : Disk.Leaving temporary written d d') (hw : written ≠ some f.file.node) :
    f.Serves d' temporary size ps where
  pageSize := h.pageSize
  pageCount := h.pageCount
  length_lt := h.length_lt
  sizes := h.sizes
  node_lt := Nat.lt_of_lt_of_le h.node_lt hl.next
  resident := h.resident
  stored i p hp hn := by
    obtain ⟨hhas, hspare⟩ := h.stored i p hp hn
    have hleaves := hl.leaves _ h.node_lt hw hspare
    exact ⟨hhas.of_leaves hleaves, fun hlook => hspare (hleaves.lookup? hlook)⟩

theorem lt_pageCount (h : f.Serves d temporary size ps) : i < f.file.pageCount ↔ i.toNat < ps.length := by
  rw [h.pageCount, UInt64.lt_iff_toNat_lt, UInt64.toNat_ofNat_of_lt' h.length_lt]

/-- A page that was read is in memory from then on. -/
theorem loaded (h : f.Serves d temporary size ps) (hp : ps[i.toNat]? = some p) :
    OpenFile.Serves { f with resident := f.resident.insert i p } d temporary size ps where
  pageSize := h.pageSize
  pageCount := h.pageCount
  length_lt := h.length_lt
  sizes := h.sizes
  node_lt := h.node_lt
  resident j q hq := by
    exact Page.getElem?_of_insert h.resident hp hq
  stored j q hq hn := by
    rw [lookup_insert] at hn
    split at hn
    · cases hn
    · exact h.stored j q hq hn

theorem readPage (h : f.Serves d temporary size ps) (hs : 0 < size) (hp : ps[i.toNat]? = some p)
    (hn : f.resident[i]? = none) : (f.file.readPage i size).Gives d p d := by
  have hlt := (List.getElem?_eq_some_iff.mp hp).1
  have hin : ¬ f.file.pageCount ≤ i := UInt64.not_le.mpr (h.lt_pageCount.mpr hlt)
  have hsize : p.size = size := h.sizes p (List.mem_of_getElem? hp)
  have hread := (h.stored i p hp hn).1.readAt (by omega)
  rw [PagedFile.readPage, if_neg hin]
  dsimp only
  rw [if_neg (not_not_intro h.pageSize.symm), PagedFile.offset, h.pageSize, ← hsize]
  rw [← hsize] at hread
  exact hread.embed.bind (.pure _ d)

end OpenFile.Serves

namespace Mounted

/-- A page that is in memory. -/
def Warm (m : Mounted) (id : FileId) (i : PageIndex) : Prop :=
  ∃ f, m.volume.files[id]? = some f ∧ (f.resident[i]?).isSome = true

/-- A volume after reading: at most there are more pages in memory. -/
structure Reads (m m' : Mounted) : Prop where
  disk : m'.disk = m.disk
  catalog : m'.volume.catalog = m.volume.catalog
  warm : ∀ {id i}, m.Warm id i → m'.Warm id i

theorem Reads.refl (m : Mounted) : m.Reads m := ⟨rfl, rfl, id⟩

/-- A volume in memory and on its disk that has the files of a stock. -/
structure Serves (size : Nat) (s : Stock) (m : Mounted) : Prop where
  room : 8 ≤ size
  pageSize : m.volume.pageSize = size
  catalog : m.volume.catalog.Lists s.names
  inj : ∀ {id id' name}, s.names id = some name → s.names id' = some name → id = id'
  file : ∀ {id name}, s.names id = some name → ∃ f, m.volume.files[id]? = some f ∧ f.name = name ∧
    f.Serves m.disk (m.volume.directory.join Catalog.temporaryName) size (s.pages id)
  noFile : ∀ {id}, s.names id = none → m.volume.files[id]? = none
  apart : ∀ {id id' : FileId} {f g : OpenFile}, m.volume.files[id]? = some f → m.volume.files[id']? = some g →
    f.file.node = g.file.node → id = id'
  log : ∀ {id : FileId} {f : OpenFile}, m.volume.files[id]? = some f → f.file.node ≠ s.logNode
  log_lt : s.logNode < m.disk.nextNode

namespace Serves

variable {m : Mounted} {size : Nat} {s : Stock} {id : FileId} {name : String} {f g : OpenFile}
  {i : PageIndex} {p : Page} {d : Disk} {ps : List Page}

theorem idOf?_eq_some (h : m.Serves size s) : m.volume.idOf? name = some id ↔ s.names id = some name :=
  h.catalog.idOf?_eq_some h.inj

theorem idOf?_eq_none (h : m.Serves size s) :
    m.volume.idOf? name = none ↔ ∀ id, s.names id ≠ some name := by
  rw [Option.eq_none_iff_forall_ne_some]
  exact forall_congr' fun _ => not_congr h.idOf?_eq_some

theorem named (h : m.Serves size s) (hf : m.volume.files[id]? = some f) : s.names id = some f.name := by
  cases hn : s.names id with
  | none =>
    rw [h.noFile hn] at hf
    cases hf
  | some x =>
    obtain ⟨g, hg, rfl, -⟩ := h.file hn
    rw [hf] at hg
    rw [Option.some.inj hg]

theorem serves (h : m.Serves size s) (hf : m.volume.files[id]? = some f) :
    f.Serves m.disk (m.volume.directory.join Catalog.temporaryName) size (s.pages id) := by
  obtain ⟨g, hg, -, hs⟩ := h.file (h.named hf)
  rw [hf] at hg
  rwa [Option.some.inj hg]

/-- Another disk will do on which no file was written to. -/
theorem onDisk (h : m.Serves size s) {written : Option Nat}
    (hl : Disk.Leaving (m.volume.directory.join Catalog.temporaryName) written m.disk d)
    (hw : ∀ {id : FileId} {f : OpenFile}, m.volume.files[id]? = some f → written ≠ some f.file.node) :
    Serves size s ⟨d, m.volume⟩ where
  room := h.room
  pageSize := h.pageSize
  catalog := h.catalog
  inj := h.inj
  file hid := by
    obtain ⟨f, hf, hname, hs⟩ := h.file hid
    exact ⟨f, hf, hname, hs.of_leaving hl (hw hf)⟩
  noFile := h.noFile
  apart := h.apart
  log := h.log
  log_lt := Nat.lt_of_lt_of_le h.log_lt hl.next

/-- One file is replaced by one with the same node, and all others keep their bytes. -/
theorem withFile (h : m.Serves size s) (hf : m.volume.files[id]? = some f) (hname : g.name = f.name)
    (hnode : g.file.node = f.file.node)
    (hg : g.Serves d (m.volume.directory.join Catalog.temporaryName) size ps)
    (hl : Disk.Leaving (m.volume.directory.join Catalog.temporaryName) (some f.file.node) m.disk d) :
    Serves size (s.withPages id ps) ⟨d, m.volume.withFile id g⟩ := by
  have hold {id' : FileId} {x : OpenFile} (hx : (m.volume.withFile id g).files[id']? = some x) :
      ∃ y, m.volume.files[id']? = some y ∧ x.file.node = y.file.node := by
    rcases lookup_insert_eq_some.mp hx with ⟨rfl, rfl⟩ | ⟨-, hx⟩
    · exact ⟨f, hf, hnode⟩
    · exact ⟨x, hx, rfl⟩
  refine ⟨h.room, h.pageSize, h.catalog, h.inj, fun {id' x} hid => ?_, fun {id'} hid => ?_,
    fun {a b x y} hx hy hxy => ?_, fun {a x} hx => ?_, Nat.lt_of_lt_of_le h.log_lt hl.next⟩
  · by_cases he : id' = id
    · subst he
      have hx : s.names id' = some x := hid
      rw [h.named hf] at hx
      refine ⟨g, Std.TreeMap.getElem?_insert_self, hname.trans (Option.some.inj hx), ?_⟩
      simp only [Stock.withPages, if_true]
      exact hg
    · obtain ⟨x, hx, hxn, hs⟩ := h.file hid
      refine ⟨x, (lookup_insert_of_ne he).trans hx, hxn, ?_⟩
      simp only [Stock.withPages, if_neg he]
      exact hs.of_leaving hl fun hn => he (h.apart hx hf (Option.some.inj hn).symm)
  · by_cases he : id' = id
    · subst he
      have hnone : s.names id' = none := hid
      rw [h.noFile hnone] at hf
      cases hf
    · exact (lookup_insert_of_ne he).trans (h.noFile hid)
  · obtain ⟨x', hx', hxn⟩ := hold hx
    obtain ⟨y', hy', hyn⟩ := hold hy
    exact h.apart hx' hy' (hxn.symm.trans (hxy.trans hyn))
  · obtain ⟨x', hx', hxn⟩ := hold hx
    rw [hxn]
    exact h.log hx'

theorem pageCount (h : m.Serves size s) (hid : s.names id = some name) :
    (Mounted.pageCount id).Gives m (UInt64.ofNat (s.pages id).length) m := by
  obtain ⟨f, hf, -, hs⟩ := h.file hid
  exact (openFile_known hf).bind (hs.pageCount ▸ .pure _ m)

theorem pageCount_none (h : m.Serves size s) (hid : s.names id = none) :
    (Mounted.pageCount id).start m = (refuse (.unknownFile id), m) := by
  rw [Mounted.pageCount, Task.start_bind, openFile_unknown (h.noFile hid)]
  rfl

/-- Loading a page shows it, or says that its seal is broken. -/
theorem loadPage_start (h : m.Serves size s) (hf : m.volume.files[id]? = some f)
    (hp : (s.pages id)[i.toNat]? = some p) : ∃ m', (Mounted.loadPage id i).start m = (f.shown i p, m') ∧
      m'.Serves size s ∧ m.Reads m' ∧ ∀ q, f.shown i p = .ok q → m'.Warm id i := by
  have hs := h.serves hf
  rw [Mounted.loadPage, (openFile_known hf).start_bind, OpenFile.shown]
  cases hr : f.resident[i]? with
  | some q =>
    obtain rfl : q = p := Option.some.inj ((hs.resident i q hr).symm.trans hp)
    exact ⟨m, rfl, h, .refl m, fun _ _ => ⟨f, hf, by rw [hr]; rfl⟩⟩
  | none =>
    have hlt := (List.getElem?_eq_some_iff.mp hp).1
    have hin : ¬ f.file.pageCount ≤ i := UInt64.not_le.mpr (hs.lt_pageCount.mpr hlt)
    have hroom := h.room
    have hread : (liftM (f.file.readPage i size) : Task Mounted StorageError Page).Gives m p m :=
      Task.Gives.inPart (s := m) (hs.readPage (by omega) hp hr)
    dsimp only
    rw [if_neg hin, (Task.Gives.state m).start_bind, h.pageSize, hread.start_bind, Task.start_bind,
      Task.start_ofChecked]
    have hloaded := h.withFile (g := { f with resident := f.resident.insert i p }) hf rfl rfl
      (hs.loaded hp) (.refl _ _ _)
    have hsame : s.withPages id (s.pages id) = s := by
      rw [Stock.withPages]
      congr
      funext x
      split
      · next he => rw [he]
      · rfl
    rw [hsame] at hloaded
    cases hv : p.verify with
    | error cause => exact ⟨m, rfl, h, .refl m, fun _ hq => (by cases hq)⟩
    | ok u =>
      refine ⟨_, rfl, hloaded, ⟨rfl, rfl, fun {id' j} hw => ?_⟩, fun _ _ => ?_⟩
      · obtain ⟨g, hg, hj⟩ := hw
        by_cases he : id' = id
        · subst he
          obtain rfl := Option.some.inj (hf.symm.trans hg)
          refine ⟨_, Std.TreeMap.getElem?_insert_self, ?_⟩
          rw [lookup_insert]
          split
          · rfl
          · exact hj
        · refine ⟨g, ?_, hj⟩
          show (m.volume.files.insert id _)[id']? = some g
          rw [lookup_insert_of_ne he]
          exact hg
      · exact ⟨_, Std.TreeMap.getElem?_insert_self, by simp⟩

/-- Past its end a file has no page. -/
theorem loadPage_outside (h : m.Serves size s) (hf : m.volume.files[id]? = some f)
    (hi : (s.pages id).length ≤ i.toNat) : (Mounted.loadPage id i).start m =
      (refuse (.pageOutOfBounds id i (UInt64.ofNat (s.pages id).length)), m) := by
  have hs := h.serves hf
  have hnone : f.resident[i]? = none := by
    cases hr : f.resident[i]? with
    | none => rfl
    | some q =>
      have := (List.getElem?_eq_some_iff.mp (hs.resident i q hr)).1
      omega
  have hin : f.file.pageCount ≤ i := UInt64.not_lt.mp (mt hs.lt_pageCount.mp (by omega))
  rw [Mounted.loadPage, (openFile_known hf).start_bind, hnone]
  dsimp only
  rw [if_pos hin, hs.pageCount]
  rfl

theorem loadPage_none (h : m.Serves size s) (hid : s.names id = none) (i : PageIndex) :
    (Mounted.loadPage id i).start m = (refuse (.unknownFile id), m) := by
  rw [Mounted.loadPage, Task.start_bind, openFile_unknown (h.noFile hid)]
  rfl

theorem findFile (h : m.Serves size s) (hid : s.names id = some name) :
    (Mounted.findFile name).Gives m id m := by
  refine (Task.Gives.state m).bind ?_
  rw [h.idOf?_eq_some.mpr hid]
  exact .pure id m

theorem findFile_none (h : m.Serves size s) (hno : ∀ id, s.names id ≠ some name) :
    (Mounted.findFile name).start m = (refuse (.fileNotFound name), m) := by
  rw [Mounted.findFile, (Task.Gives.state m).start_bind, h.idOf?_eq_none.mpr hno]
  rfl

/-- An id that is taken for a new file belongs to none. -/
theorem reserve (h : m.Serves size s) (hroom : m.volume.catalog.nextId ≠ FileId.none) :
    s.names m.volume.catalog.nextId = none ∧
      Serves size s ⟨m.disk, { m.volume with catalog := m.volume.catalog.reserve.2 }⟩ := by
  have hlt : m.volume.catalog.nextId < m.volume.catalog.nextId + 1 := by
    have hne : m.volume.catalog.nextId.toNat ≠ 4294967295 := fun he => hroom (UInt32.toNat_inj.mp he)
    have := m.volume.catalog.nextId.toNat_lt
    rw [UInt32.lt_iff_toNat_lt, UInt32.toNat_add]
    simp only [UInt32.toNat_one]
    omega
  refine ⟨?_, h.room, h.pageSize, ⟨h.catalog.name, fun hx => UInt32.lt_trans (h.catalog.next hx) hlt⟩,
    h.inj, h.file, h.noFile, h.apart, h.log, h.log_lt⟩
  cases hn : s.names m.volume.catalog.nextId with
  | none => rfl
  | some x => exact absurd (h.catalog.next hn) (UInt32.lt_irrefl _)

end Serves

end Mounted

end RefStore
