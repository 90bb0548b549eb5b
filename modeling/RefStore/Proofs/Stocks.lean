import Mathlib.Data.List.Perm.Subperm
import RefStore.Proofs.CatalogCodec
import RefStore.Proofs.Maps
import RefStore.Proofs.PagedFiles
import RefStore.Proofs.Seals
import RefStore.Storage.Volume

/-!
# What a volume holds

A stock says which files a volume has and which pages they hold. It is told apart from the disk that
keeps it and from the volume in memory that mirrors it. A change of a file that is not registered, and
of the temporary catalog, does not change the stock.
-/

namespace RefStore

/-- Names of data files. They are longer than those of the catalog and the log. -/
structure Volume.DataName (name : String) : Prop where
  plain : Path.Plain name
  long : 13 < name.utf8ByteSize

/-- The registered files with their pages, and the log. -/
structure Stock where
  names : FileId → Option String
  pages : FileId → List Page
  logNode : Nat
  log : List UInt8

namespace Stock

def without (s : Stock) (id : FileId) : Stock :=
  { s with names := fun f => if f = id then none else s.names f }

def withPages (s : Stock) (id : FileId) (ps : List Page) : Stock :=
  { s with pages := fun f => if f = id then ps else s.pages f }

def withFile (s : Stock) (id : FileId) (name : String) : Stock :=
  { s.withPages id [] with names := fun f => if f = id then some name else s.names f }

def withLog (s : Stock) (log : List UInt8) : Stock := { s with log }

/-- Names fit the directory and are not given twice, and no file is too long for a disk. -/
structure Sane (dir : Path) (size : Nat) (s : Stock) : Prop where
  named : ∀ {id name}, s.names id = some name → Volume.DataName name ∧ dir.Fits name
  inj : ∀ {id id' name}, s.names id = some name → s.names id' = some name → id = id'
  valid : ∀ {id name}, s.names id = some name → id ≠ FileId.none
  bounded : ∀ {id name}, s.names id = some name → (s.pages id).length * size ≤ Disk.longestFile

variable {s : Stock} {id f : FileId} {name x : String}

theorem names_without : (s.without id).names f = some x ↔ f ≠ id ∧ s.names f = some x := by
  simp only [without]
  split
  · next he => simp [he]
  · next hne => simp [hne]

theorem names_without_eq_none : (s.without id).names f = none ↔ f = id ∨ s.names f = none := by
  simp only [without]
  split
  · next he => simp [he]
  · next hne => simp [hne]

theorem names_withFile : (s.withFile id name).names f = some x ↔
    f = id ∧ x = name ∨ f ≠ id ∧ s.names f = some x := by
  simp only [withFile]
  split
  · next he => simp [he, eq_comm]
  · next hne => simp [hne]

theorem names_withFile_eq_none : (s.withFile id name).names f = none ↔ f ≠ id ∧ s.names f = none := by
  simp only [withFile]
  split
  · next he => simp [he]
  · next hne => simp [hne]

@[simp] theorem pages_withFile_self : (s.withFile id name).pages id = [] := if_pos rfl

theorem pages_withFile (h : f ≠ id) : (s.withFile id name).pages f = s.pages f := if_neg h

end Stock

theorem FileId.ne_none_of_lt {f next : FileId} (h : f < next) : f ≠ FileId.none := by
  rintro rfl
  have := UInt32.lt_iff_toNat_lt.mp h
  have := next.toNat_lt
  have hnone : FileId.none.toNat = 4294967295 := rfl
  omega

theorem FileId.lt_succ {id : FileId} (h : id ≠ FileId.none) : id < id + 1 ∧ (id + 1).toNat = id.toNat + 1 := by
  have hne : id.toNat ≠ 4294967295 := fun he => h (UInt32.toNat_inj.mp he)
  have hlt := id.toNat_lt
  have hsucc : (id + 1).toNat = id.toNat + 1 := by
    rw [UInt32.toNat_add, UInt32.toNat_one]
    omega
  exact ⟨UInt32.lt_iff_toNat_lt.mpr (by omega), hsucc⟩

/-- A catalog with some names, whose next id is above all of them. -/
structure Catalog.Lists (c : Catalog) (names : FileId → Option String) : Prop where
  name : ∀ id : FileId, c.names[id]? = names id
  next : ∀ {id name}, names id = some name → id < c.nextId

/-- Ids that were handed out stay so when a file is registered. -/
theorem Catalog.nextId_le_insert (c : Catalog) (id : FileId) (name : String) :
    c.nextId ≤ (c.insert id name).nextId := by
  dsimp only [insert, max, maxOfLe]
  split
  · assumption
  · exact UInt32.le_refl _

theorem Catalog.lt_nextId_insert (c : Catalog) {id : FileId} (h : id ≠ FileId.none) (name : String) :
    id < (c.insert id name).nextId := by
  have hsucc := (FileId.lt_succ h).1
  dsimp only [insert, max, maxOfLe]
  split
  · exact hsucc
  · next hgt => exact UInt32.lt_trans hsucc (UInt32.not_le.mp hgt)

/-- There are fewer names than can be counted, as some id has none. -/
theorem Catalog.encodable_of_free (c : Catalog) {free : FileId} (hfree : c.names[free]? = none)
    (hn : ∀ (id : FileId) name, c.names[id]? = some name → name.utf8ByteSize ≤ longestName) : c.Encodable := by
  have hmem {e : FileId × String} (he : e ∈ c.names.toList) : c.names[e.1]? = some e.2 :=
    Std.TreeMap.mem_toList_iff_getElem?_eq_some.mp he
  refine ⟨?_, fun e he => hn e.1 e.2 (hmem he)⟩
  have hnodup : (c.names.toList.map fun e => e.1.toNat).Nodup := by
    refine List.pairwise_map.mpr ((Std.TreeMap.distinct_keys_toList (t := c.names)).imp ?_)
    intro a b hab heq
    exact hab (by simp [UInt32.toNat_inj.mp heq])
  have hnew : free.toNat ∉ c.names.toList.map fun e => e.1.toNat := fun hk => by
    obtain ⟨e, he, heq⟩ := List.mem_map.mp hk
    rw [← UInt32.toNat_inj.mp heq, hmem he] at hfree
    cases hfree
  have hsub : (free.toNat :: c.names.toList.map fun e => e.1.toNat) ⊆ List.range 4294967296 := by
    intro k hk
    rw [List.mem_range]
    rcases List.mem_cons.mp hk with rfl | hk
    · exact free.toNat_lt
    · obtain ⟨e, -, rfl⟩ := List.mem_map.mp hk
      exact e.1.toNat_lt
  have hle := ((List.nodup_cons.mpr ⟨hnew, hnodup⟩).subperm hsub).length_le
  rw [List.length_cons, List.length_map, List.length_range, Std.TreeMap.length_toList] at hle
  omega

/-- The catalog that a directory's catalog file stands for. -/
def Catalog.ofStored : Option (List UInt8) → Except CatalogError Catalog
  | none => .ok .empty
  | some bs => decode bs

/-- A disk that keeps a stock in a directory. -/
structure Disk.Stocks (dir : Path) (place : Location) (size : Nat) (s : Stock) (d : Disk) : Prop where
  houses : d.Houses dir place
  catalog : ∃ c, Catalog.ofStored (d.bytes? place Catalog.fileName) = .ok c ∧ c.Lists s.names
  file : ∀ {id name}, s.names id = some name → ∃ n, d.Paged place name n size (s.pages id)
  logNode : d.node? place Log.fileName = some s.logNode
  log : d.bytes? place Log.fileName = some s.log
  sane : s.Sane dir size

namespace Volume.DataName

variable {name : String} {dir : Path}

theorem short (h : DataName name) : name.utf8ByteSize ≤ Catalog.longestName :=
  Nat.le_trans h.plain.short (by decide)

theorem ne_catalog (h : DataName name) : name ≠ Catalog.fileName := by
  rintro rfl
  exact absurd h.long (by decide)

theorem ne_temporary (h : DataName name) : name ≠ Catalog.temporaryName := by
  rintro rfl
  exact absurd h.long (by decide)

theorem ne_log (h : DataName name) : name ≠ Log.fileName := by
  rintro rfl
  exact absurd h.long (by decide)

theorem fits_catalog (h : DataName name) (hf : dir.Fits name) : dir.Fits Catalog.fileName := by
  have hplain : Path.Plain Catalog.fileName := by constructor <;> decide
  exact ⟨hplain, Path.isUsable_join hf.usable h.plain hplain
    (Nat.le_trans (by decide) (Nat.le_of_lt h.long))⟩

theorem fits_temporary (h : DataName name) (hf : dir.Fits name) :
    dir.Fits Catalog.temporaryName := by
  have hplain : Path.Plain Catalog.temporaryName := by constructor <;> decide
  exact ⟨hplain, Path.isUsable_join hf.usable h.plain hplain
    (Nat.le_trans (by decide) (Nat.le_of_lt h.long))⟩

end Volume.DataName

namespace Catalog.Lists

variable {c : Catalog} {names : FileId → Option String}

theorem idOf?_eq_some (h : c.Lists names)
    (hinj : ∀ {id id' name}, names id = some name → names id' = some name → id = id') {name : String}
    {id : FileId} : c.idOf? name = some id ↔ names id = some name := by
  have hmem (e : FileId × String) : e ∈ c.names.toList ↔ names e.1 = some e.2 := by
    rw [← h.name, ← Std.TreeMap.mem_toList_iff_getElem?_eq_some]
  rw [idOf?, Option.map_eq_some_iff]
  constructor
  · rintro ⟨e, he, rfl⟩
    have hname : e.2 = name := by simpa using List.find?_some he
    rw [← hname]
    exact (hmem e).mp (List.mem_of_find?_eq_some he)
  · intro hid
    cases hf : c.names.toList.find? fun e => e.2 = name with
    | none =>
      have := List.find?_eq_none.mp hf (id, name) ((hmem (id, name)).mpr hid)
      simp at this
    | some e =>
      have hname : e.2 = name := by simpa using List.find?_some hf
      refine ⟨e, rfl, hinj ((hmem e).mp (List.mem_of_find?_eq_some hf)) ?_⟩
      rw [hname]
      exact hid

theorem erase (h : c.Lists names) (id : FileId) :
    (c.erase id).Lists fun f => if f = id then none else names f where
  name f := by
    have hname := h.name f
    simp only [Catalog.erase, lookup_erase, hname]
  next {f x} hf := by
    split at hf
    · cases hf
    · exact h.next hf

theorem insert (h : c.Lists names) {id : FileId} (hvalid : id ≠ FileId.none) (name : String) :
    (c.insert id name).Lists fun f => if f = id then some name else names f where
  name f := by
    have hname := h.name f
    simp only [Catalog.insert, lookup_insert, hname]
  next {f x} hf := by
    split at hf
    · next he => exact he ▸ c.lt_nextId_insert hvalid name
    · exact UInt32.lt_of_lt_of_le (h.next hf) (c.nextId_le_insert id name)

/-- A catalog of names that are not too long can be encoded. -/
theorem encodable (h : c.Lists names) (hv : ∀ {id name}, names id = some name → id ≠ FileId.none)
    (hn : ∀ {id name}, names id = some name → name.utf8ByteSize ≤ longestName) : c.Encodable := by
  have hfree : c.names[FileId.none]? = none := by
    rw [h.name]
    exact Option.eq_none_iff_forall_ne_some.mpr fun name hid => hv hid rfl
  exact c.encodable_of_free hfree fun id name hid => hn ((h.name id).symm.trans hid)

end Catalog.Lists

namespace Disk.Stocks

variable {d d' : Disk} {dir : Path} {place : Location} {size : Nat} {s : Stock} {x : String}
  {id : FileId} {name : String}

theorem restart (h : d.Stocks dir place size s) : d.restart.Stocks dir place size s where
  houses := h.houses.withOutage none
  catalog := h.catalog
  file := fun hid => (h.file hid).imp fun _ hp => PagedFile.paged_restart hp
  logNode := h.logNode
  log := h.log
  sane := h.sane

theorem withOutage (h : d.Stocks dir place size s) (o : Option Outage) :
    (withOutage o d).Stocks dir place size s where
  houses := h.houses.withOutage o
  catalog := h.catalog
  file := fun hid => (h.file hid).imp fun _ hp => ⟨hp.node, hp.bytes, hp.sizes⟩
  logNode := h.logNode
  log := h.log
  sane := h.sane

/-- A file that is not registered may be there or not, with any contents. -/
theorem of_onlyAt (h : d.Stocks dir place size s) (ho : OnlyAt dir place x d d')
    (hx : ∀ id, s.names id ≠ some x) (hc : x ≠ Catalog.fileName) (hl : x ≠ Log.fileName) :
    d'.Stocks dir place size s where
  houses := ho.houses
  catalog := by
    rw [ho.bytes _ hc.symm]
    exact h.catalog
  file {id name} hid := by
    have hne : name ≠ x := fun he => hx id (he ▸ hid)
    obtain ⟨n, hp⟩ := h.file hid
    exact ⟨n, (ho.node _ hne).trans hp.node, (ho.bytes _ hne).trans hp.bytes, hp.sizes⟩
  logNode := (ho.node _ hl.symm).trans h.logNode
  log := (ho.bytes _ hl.symm).trans h.log
  sane := h.sane

theorem of_temporary (h : d.Stocks dir place size s)
    (ho : OnlyAt dir place Catalog.temporaryName d d') : d'.Stocks dir place size s :=
  h.of_onlyAt ho (fun _ hid => (h.sane.named hid).1.ne_temporary rfl) (by decide) (by decide)

theorem withPages (h : d.Stocks dir place size s) (hid : s.names id = some name)
    (ho : OnlyAt dir place name d d') {n : Nat} {ps : List Page} (hp : d'.Paged place name n size ps)
    (hb : ps.length * size ≤ longestFile) : d'.Stocks dir place size (s.withPages id ps) where
  houses := ho.houses
  catalog := by
    rw [ho.bytes _ (h.sane.named hid).1.ne_catalog.symm]
    exact h.catalog
  file {f x} hf := by
    by_cases he : f = id
    · subst he
      obtain rfl : name = x := Option.some.inj (hid.symm.trans hf)
      exact ⟨n, by simpa [Stock.withPages] using hp⟩
    · have hne : x ≠ name := fun hx => he (h.sane.inj hf (hx ▸ hid))
      obtain ⟨m, hm⟩ := h.file hf
      refine ⟨m, (ho.node _ hne).trans hm.node, ?_, ?_⟩ <;> simp only [Stock.withPages, if_neg he]
      · exact (ho.bytes _ hne).trans hm.bytes
      · exact hm.sizes
  logNode := (ho.node _ (h.sane.named hid).1.ne_log.symm).trans h.logNode
  log := (ho.bytes _ (h.sane.named hid).1.ne_log.symm).trans h.log
  sane := {
    named := h.sane.named
    inj := h.sane.inj
    valid := h.sane.valid
    bounded := fun {f x} hf => by
      simp only [Stock.withPages]
      split
      · exact hb
      · exact h.sane.bounded hf }

/-- Other names in the catalog make another stock of the files that are there. -/
theorem of_saved (h : d.Stocks dir place size s) {c : Catalog} {names : FileId → Option String}
    {pages : FileId → List Page} (hc : c.Encodable) (hl : c.Lists names)
    (hs : Catalog.Saved dir place c d d')
    (hsane : (⟨names, pages, s.logNode, s.log⟩ : Stock).Sane dir size)
    (hfile : ∀ {id name}, names id = some name → ∃ n, d.Paged place name n size (pages id)) :
    d'.Stocks dir place size ⟨names, pages, s.logNode, s.log⟩ where
  houses := hs.houses
  catalog := by
    obtain ⟨c', hd, hnext, hnames⟩ := Catalog.decode_encode hc
    refine ⟨c', by rw [hs.catalog]; exact hd, fun id => (hnames id).trans (hl.name id), ?_⟩
    rw [hnext]
    exact hl.next
  file {id name} hid := by
    have hn := (hsane.named hid).1
    obtain ⟨n, hp⟩ := hfile hid
    exact ⟨n, (hs.node _ hn.ne_catalog hn.ne_temporary).trans hp.node,
      (hs.bytes _ hn.ne_catalog hn.ne_temporary).trans hp.bytes, hp.sizes⟩
  logNode := (hs.node _ (by decide) (by decide)).trans h.logNode
  log := (hs.bytes _ (by decide) (by decide)).trans h.log
  sane := hsane

end Disk.Stocks

end RefStore
