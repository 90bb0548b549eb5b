import RefStore.Proofs.Stocks
import RefStore.Sizes.SizeMap
import RefStore.Tree.Basic

/-!
# What a directory of component files keeps

An archive says which files are registered and which pages they hold, and which ids were given to files
so far. A directory may have other files; there need not be a log. A name of a component file fits the
directory, or leads nowhere. Main statements: `Disk.Archives.of_onlyAt`, `Disk.Archives.withPages`,
`Disk.Archives.of_saved`.
-/

namespace RefStore

/-- The name of a component's file. It may be too long for the disk. -/
structure Component.FileName (name : String) : Prop where
  noSlash : '/' ∉ name.toList
  extended : ∃ base, name = base ++ Tree.extension ∨ name = base ++ SizeMap.extension

namespace Component.FileName

variable {name : String}

theorem getLast? (h : FileName name) : name.toList.getLast? = some 'b' ∨ name.toList.getLast? = some 's' := by
  obtain ⟨base, rfl | rfl⟩ := h.extended
  · exact .inl (by simp [Tree.extension])
  · exact .inr (by simp [SizeMap.extension])

theorem ne_of_getLast? {other : String} (h : FileName name) (hb : other.toList.getLast? ≠ some 'b')
    (hs : other.toList.getLast? ≠ some 's') : name ≠ other := by
  rintro rfl
  exact h.getLast?.elim hb hs

theorem ne_catalog (h : FileName name) : name ≠ Catalog.fileName :=
  h.ne_of_getLast? (by decide) (by decide)

theorem ne_temporary (h : FileName name) : name ≠ Catalog.temporaryName :=
  h.ne_of_getLast? (by decide) (by decide)

theorem moves (h : FileName name) : Path.stays name = false := by
  have hempty : name ≠ "" := h.ne_of_getLast? (by decide) (by decide)
  have hdot : name ≠ "." := h.ne_of_getLast? (by decide) (by decide)
  simp [Path.stays, hempty, hdot]

theorem ne_up (h : FileName name) : name ≠ ".." := h.ne_of_getLast? (by decide) (by decide)

end Component.FileName

theorem Path.noZero_of_isUsable {dir : Path} {name : String} (hs : '/' ∉ name.toList)
    (h : (dir.join name).isUsable = true) : '\x00' ∉ name.toList := by
  rw [join_of_noSlash dir hs, isUsable_iff] at h
  by_cases hstem : dir.stem = []
  · rw [hstem, List.nil_append, text, String.intercalate_singleton] at h
    exact h.2
  · rw [text_append hstem (List.cons_ne_nil _ _)] at h
    simp only [text, String.intercalate_singleton, String.toList_append, List.mem_append, not_or] at h
    exact h.2.2

/-- A name that does not fit the directory leads nowhere. -/
theorem Disk.Leads.resolve_misfit {d : Disk} {dir : Path} {place : Location} {name : String}
    (h : d.Leads dir place) (hn : Component.FileName name) (hmisfit : ¬ dir.Fits name) :
    ∃ e : Failure IoError, d.resolve (dir.join name) = .error e := by
  by_cases hu : (dir.join name).isUsable = true
  · have hlong : Path.longestName < name.utf8ByteSize := Nat.lt_of_not_le fun hle =>
      hmisfit ⟨⟨hn.noSlash, Path.noZero_of_isUsable hn.noSlash hu, hn.moves, hn.ne_up, hle⟩, hu⟩
    have hfollow : d.follow place name = .error (.error ⟨"name too long"⟩) := by
      rw [follow, h.directory]
      dsimp only
      rw [hn.moves, if_neg Bool.false_ne_true, if_neg hn.ne_up, if_pos hlong]
      rfl
    refine ⟨.error ⟨"name too long"⟩, ?_⟩
    rw [Disk.resolve, if_pos hu, Path.join_of_noSlash dir hn.noSlash, List.foldlM_append, h.stem]
    exact congrArg (· >>= pure) hfollow
  · exact ⟨.error ⟨"invalid path"⟩, if_neg hu⟩

/-- The registered files with their pages, and the ids that were ever given to a file. -/
structure Archive where
  names : FileId → Option String
  pages : FileId → List Page
  given : FileId → Prop

namespace Archive

def empty : Archive := ⟨fun _ => none, fun _ => [], fun _ => False⟩

def without (a : Archive) (id : FileId) : Archive :=
  { a with
    names := fun f => if f = id then none else a.names f
    pages := fun f => if f = id then [] else a.pages f }

def withPages (a : Archive) (id : FileId) (ps : List Page) : Archive :=
  { a with pages := fun f => if f = id then ps else a.pages f }

def withFile (a : Archive) (id : FileId) (name : String) : Archive where
  names f := if f = id then some name else a.names f
  pages f := if f = id then [] else a.pages f
  given f := f = id ∨ a.given f

/-- Names fit the directory and are not given twice, no file is too long for a disk, and every page
passes when it is read. -/
structure Sane (dir : Path) (size : Nat) (a : Archive) : Prop where
  named : ∀ {id name}, a.names id = some name → Component.FileName name ∧ dir.Fits name
  inj : ∀ {id id' name}, a.names id = some name → a.names id' = some name → id = id'
  valid : ∀ {id name}, a.names id = some name → id ≠ FileId.none
  bounded : ∀ {id name}, a.names id = some name → (a.pages id).length * size ≤ Disk.longestFile
  verified : ∀ {id name}, a.names id = some name → ∀ p ∈ a.pages id, p.verify = .ok ()

variable {a : Archive} {dir : Path} {size : Nat} {id f : FileId} {name x : String} {ps : List Page}

theorem names_without : (a.without id).names f = some x ↔ f ≠ id ∧ a.names f = some x := by
  simp only [without]
  split
  · next he => simp [he]
  · next hne => simp [hne]

theorem pages_without (h : f ≠ id) : (a.without id).pages f = a.pages f := if_neg h

@[simp] theorem pages_withPages_self : (a.withPages id ps).pages id = ps := if_pos rfl

theorem pages_withPages (h : f ≠ id) : (a.withPages id ps).pages f = a.pages f := if_neg h

@[simp] theorem withPages_self : a.withPages id (a.pages id) = a := by
  rw [withPages]
  congr
  funext f
  split
  · next he => rw [he]
  · rfl

@[simp] theorem pages_withFile_self : (a.withFile id name).pages id = [] := if_pos rfl

theorem pages_withFile (h : f ≠ id) : (a.withFile id name).pages f = a.pages f := if_neg h

theorem names_withFile : (a.withFile id name).names f = some x ↔
    f = id ∧ x = name ∨ f ≠ id ∧ a.names f = some x := by
  simp only [withFile]
  split
  · next he => simp [he, eq_comm]
  · next hne => simp [hne]

namespace Sane

theorem empty : Archive.empty.Sane dir size := ⟨nofun, nofun, nofun, nofun, nofun⟩

theorem without (h : a.Sane dir size) (id : FileId) : (a.without id).Sane dir size where
  named hf := h.named (names_without.mp hf).2
  inj hf hf' := h.inj (names_without.mp hf).2 (names_without.mp hf').2
  valid hf := h.valid (names_without.mp hf).2
  bounded hf := by
    obtain ⟨hne, hf⟩ := names_without.mp hf
    rw [pages_without hne]
    exact h.bounded hf
  verified hf := by
    obtain ⟨hne, hf⟩ := names_without.mp hf
    rw [pages_without hne]
    exact h.verified hf

theorem withPages (h : a.Sane dir size) (hb : ps.length * size ≤ Disk.longestFile)
    (hv : ∀ p ∈ ps, p.verify = .ok ()) : (a.withPages id ps).Sane dir size where
  named := h.named
  inj := h.inj
  valid := h.valid
  bounded {f _} hf := by
    by_cases he : f = id
    · rwa [he, pages_withPages_self]
    · rw [pages_withPages he]
      exact h.bounded hf
  verified {f _} hf := by
    by_cases he : f = id
    · rwa [he, pages_withPages_self]
    · rw [pages_withPages he]
      exact h.verified hf

theorem withFile (h : a.Sane dir size) (hvalid : id ≠ FileId.none) (hn : Component.FileName name)
    (hfits : dir.Fits name) (hfree : ∀ f, a.names f ≠ some name) : (a.withFile id name).Sane dir size where
  named hf := by
    rcases names_withFile.mp hf with ⟨-, rfl⟩ | ⟨-, hf⟩
    · exact ⟨hn, hfits⟩
    · exact h.named hf
  inj {f g x} hf hg := by
    rcases names_withFile.mp hf with ⟨rfl, rfl⟩ | ⟨-, hold⟩ <;>
      rcases names_withFile.mp hg with ⟨rfl, hx⟩ | ⟨-, hold'⟩
    · rfl
    · exact absurd hold' (hfree g)
    · exact absurd (hx ▸ hold) (hfree f)
    · exact h.inj hold hold'
  valid hf := by
    rcases names_withFile.mp hf with ⟨rfl, -⟩ | ⟨-, hf⟩
    · exact hvalid
    · exact h.valid hf
  bounded hf := by
    rcases names_withFile.mp hf with ⟨rfl, -⟩ | ⟨hne, hf⟩
    · simp
    · rw [pages_withFile hne]
      exact h.bounded hf
  verified hf := by
    rcases names_withFile.mp hf with ⟨rfl, -⟩ | ⟨hne, hf⟩
    · simp
    · rw [pages_withFile hne]
      exact h.verified hf

end Sane

end Archive

/-- A catalog with the names of an archive, whose next id was never given. -/
structure Catalog.Covers (c : Catalog) (a : Archive) : Prop where
  lists : c.Lists a.names
  next : ∀ {id}, a.given id → id < c.nextId

namespace Catalog.Covers

variable {c : Catalog} {a : Archive} {dir : Path} {size : Nat} {id : FileId}

theorem erase (h : c.Covers a) (id : FileId) : (c.erase id).Covers (a.without id) :=
  ⟨h.lists.erase id, h.next⟩

theorem insert (h : c.Covers a) (hvalid : id ≠ FileId.none) (name : String) :
    (c.insert id name).Covers (a.withFile id name) where
  lists := h.lists.insert hvalid name
  next {f} hf := by
    rcases hf with rfl | hf
    · exact c.lt_nextId_insert hvalid name
    · exact UInt32.lt_of_lt_of_le (h.next hf) (c.nextId_le_insert id name)

theorem reserve (h : c.Covers a) (hroom : c.nextId ≠ FileId.none) : c.reserve.2.Covers a where
  lists := ⟨h.lists.name, fun hf => UInt32.lt_trans (h.lists.next hf) (FileId.lt_succ hroom).1⟩
  next hf := UInt32.lt_trans (h.next hf) (FileId.lt_succ hroom).1

theorem encodable (h : c.Covers a) (hs : a.Sane dir size) : c.Encodable :=
  h.lists.encodable hs.valid fun hx => Nat.le_trans (hs.named hx).2.plain.short (by decide)

/-- So does the catalog that is read back. -/
theorem of_decode (h : c.Covers a) {c' : Catalog} (hnext : c'.nextId = c.nextId)
    (hnames : ∀ id : FileId, c'.names[id]? = c.names[id]?) : c'.Covers a where
  lists := ⟨fun id => (hnames id).trans (h.lists.name id), hnext ▸ h.lists.next⟩
  next := hnext ▸ h.next

end Catalog.Covers

/-- A disk that keeps an archive in a directory. -/
structure Disk.Archives (dir : Path) (place : Location) (size : Nat) (a : Archive) (d : Disk) : Prop where
  houses : d.Houses dir place
  catalog : ∃ c, Catalog.ofStored (d.bytes? place Catalog.fileName) = .ok c ∧ c.Covers a
  file : ∀ {id name}, a.names id = some name → ∃ n, d.Paged place name n size (a.pages id)
  sane : a.Sane dir size

namespace Disk.Archives

variable {d d' : Disk} {dir : Path} {place : Location} {size : Nat} {a a' : Archive} {id : FileId}
  {name x : String}

theorem live (h : d.Archives dir place size a) : (withOutage none d).Archives dir place size a where
  houses := h.houses.withOutage none
  catalog := h.catalog
  file := fun hid => (h.file hid).imp fun _ hp => ⟨hp.node, hp.bytes, hp.sizes⟩
  sane := h.sane

/-- A file that is not registered may be there or not, with any contents. -/
theorem of_onlyAt (h : d.Archives dir place size a) (ho : OnlyAt dir place x d d')
    (hx : ∀ id, a.names id ≠ some x) (hc : x ≠ Catalog.fileName) : d'.Archives dir place size a where
  houses := ho.houses
  catalog := by
    rw [ho.bytes _ hc.symm]
    exact h.catalog
  file {f y} hf := by
    have hne : y ≠ x := fun he => hx f (he ▸ hf)
    obtain ⟨n, hp⟩ := h.file hf
    exact ⟨n, (ho.node _ hne).trans hp.node, (ho.bytes _ hne).trans hp.bytes, hp.sizes⟩
  sane := h.sane

theorem withPages (h : d.Archives dir place size a) (hid : a.names id = some name)
    (ho : OnlyAt dir place name d d') {n : Nat} {ps : List Page} (hp : d'.Paged place name n size ps)
    (hb : ps.length * size ≤ longestFile) (hv : ∀ p ∈ ps, p.verify = .ok ()) :
    d'.Archives dir place size (a.withPages id ps) where
  houses := ho.houses
  catalog := by
    obtain ⟨c, hc, hcovers⟩ := h.catalog
    exact ⟨c, (ho.bytes _ (h.sane.named hid).1.ne_catalog.symm) ▸ hc, hcovers.lists, hcovers.next⟩
  file {f y} hf := by
    by_cases he : f = id
    · subst he
      obtain rfl : name = y := Option.some.inj (hid.symm.trans hf)
      exact ⟨n, Archive.pages_withPages_self ▸ hp⟩
    · have hne : y ≠ name := fun hy => he (h.sane.inj hf (hy ▸ hid))
      obtain ⟨m, hm⟩ := h.file hf
      rw [Archive.pages_withPages he]
      exact ⟨m, (ho.node _ hne).trans hm.node, (ho.bytes _ hne).trans hm.bytes, hm.sizes⟩
  sane := h.sane.withPages hb hv

/-- Another catalog makes another archive of the files that are there. -/
theorem of_saved (hsane : a.Sane dir size) {c : Catalog} (hc : c.Covers a)
    (hs : Catalog.Saved dir place c d d')
    (hfile : ∀ {id name}, a.names id = some name → ∃ n, d.Paged place name n size (a.pages id)) :
    d'.Archives dir place size a where
  houses := hs.houses
  catalog := by
    obtain ⟨c', hd, hnext, hnames⟩ := Catalog.decode_encode (hc.encodable hsane)
    exact ⟨c', by rw [hs.catalog]; exact hd, hc.of_decode hnext hnames⟩
  file {f y} hf := by
    have hn := (hsane.named hf).1
    obtain ⟨n, hp⟩ := hfile hf
    exact ⟨n, (hs.node _ hn.ne_catalog hn.ne_temporary).trans hp.node,
      (hs.bytes _ hn.ne_catalog hn.ne_temporary).trans hp.bytes, hp.sizes⟩
  sane := hsane

end Disk.Archives

end RefStore
