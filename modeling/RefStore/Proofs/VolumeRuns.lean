import RefStore.Proofs.ArchiveOpenings

/-!
# Runs of a volume

What a client that makes one call after another can know of the files of a directory: their names, the pages
that it installed, and the ids that it got. A run goes on when the directory is opened again. Main statement:
`Volume.Reached.stands`, the ledger stands on the disk and in memory after every run.
-/

namespace RefStore

namespace Page

/-- One more than the highest index at which a page was installed. The last page comes first. -/
def extent (l : List (PageIndex × Page)) : Nat := l.foldr (fun e n => max n (e.1.toNat + 1)) 0

def newest? (l : List (PageIndex × Page)) (i : PageIndex) : Option Page :=
  (l.find? fun e => e.1 = i).map Prod.snd

/-- The pages of a file after some pages were installed in it. -/
def installed (size : Nat) (l : List (PageIndex × Page)) : List Page :=
  l.foldr (fun e ps => filled size ps e.1 e.2.withSeal) []

variable {size : Nat} {l : List (PageIndex × Page)}

@[simp] theorem length_installed : (installed size l).length = extent l := by
  induction l with
  | nil => rfl
  | cons e l ih =>
    rw [installed, List.foldr_cons, length_filled]
    exact congrArg (max · (e.1.toNat + 1)) ih

theorem newest?_cons (e : PageIndex × Page) (i : PageIndex) :
    newest? (e :: l) i = if e.1 = i then some e.2 else newest? l i := by
  rw [newest?, List.find?_cons]
  by_cases he : e.1 = i
  · rw [if_pos he, decide_eq_true he]
    rfl
  · rw [if_neg he, decide_eq_false he]
    rfl

theorem mem_of_newest? {i : PageIndex} {p : Page} (h : newest? l i = some p) : ∃ e ∈ l, e.2 = p := by
  obtain ⟨e, he, rfl⟩ := Option.map_eq_some_iff.mp h
  exact ⟨e, List.mem_of_find?_eq_some he, rfl⟩

/-- Nothing was installed past the end of a file. -/
theorem newest?_eq_none {i : PageIndex} (hi : extent l ≤ i.toNat) : newest? l i = none := by
  induction l with
  | nil => rfl
  | cons e l ih =>
    have hmax : max (extent l) (e.1.toNat + 1) ≤ i.toNat := hi
    have hne : e.1 ≠ i := by
      rintro rfl
      omega
    rw [newest?_cons, if_neg hne]
    exact ih (by omega)

theorem getElem?_installed {i : PageIndex} (hi : i.toNat < extent l) :
    (installed size l)[i.toNat]? = some ((newest? l i).elim (zero size) withSeal) := by
  induction l with
  | nil => exact absurd hi (Nat.not_lt_zero _)
  | cons e l ih =>
    have hlen : (installed size l).length = extent l := length_installed
    show (filled size (installed size l) e.1 e.2.withSeal)[i.toNat]? = _
    rw [getElem?_filled, newest?_cons, hlen]
    by_cases he : e.1 = i
    · rw [if_pos (by rw [he]), if_pos he]
      rfl
    · rw [if_neg fun heq => he (UInt64.toNat_inj.mp heq.symm), if_neg he]
      rcases Nat.lt_or_ge i.toNat (extent l) with hlt | hge
      · rw [if_neg (by omega)]
        exact ih hlt
      · have hgap : i.toNat < e.1.toNat := by
          have hmax : i.toNat < max (extent l) (e.1.toNat + 1) := hi
          have hne : i.toNat ≠ e.1.toNat := fun heq => he (UInt64.toNat_inj.mp heq.symm)
          omega
        rw [if_pos ⟨hgap, hge⟩, newest?_eq_none hge]
        rfl

end Page

namespace Volume

/-- The registered files by id, each with its name and with what was installed in it since it was created,
the last page first; the ids that were given to files so far; and the ids that were reserved for files that
are still to be created. `recovers` says that no id was handed out since the directory was opened. -/
structure Ledger where
  files : FileId → Option (String × List (PageIndex × Page))
  given : FileId → Prop
  reserved : List FileId
  recovers : Bool

namespace Ledger

def empty : Ledger := ⟨fun _ => none, fun _ => False, [], true⟩

def name? (l : Ledger) (id : FileId) : Option String := (l.files id).map Prod.fst

def withFile (l : Ledger) (id : FileId) (name : String) : Ledger :=
  { l with
    files := fun f => if f = id then some (name, []) else l.files f
    given := fun f => f = id ∨ l.given f
    reserved := l.reserved.erase id }

/-- What was reserved in an earlier opening is only for recovery, which comes before anything else. -/
def handOut (l : Ledger) : Ledger :=
  { l with reserved := if l.recovers then [] else l.reserved, recovers := false }

def reserve (l : Ledger) (id : FileId) : Ledger := { l.handOut with reserved := id :: l.handOut.reserved }

def create (l : Ledger) (name : String) : Checked StorageError FileId → Ledger
  | .ok id => l.handOut.withFile id name
  | .error _ => l.handOut

def createWithId (l : Ledger) (id : FileId) (name : String) : Checked StorageError Unit → Ledger
  | .ok _ => l.withFile id name
  | .error _ => l

def installPage (l : Ledger) (id : FileId) (i : PageIndex) (page : Page) : Checked StorageError Unit → Ledger
  | .ok _ => { l with
      files := fun f => if f = id then (l.files id).map fun e => (e.1, (i, page) :: e.2) else l.files f }
  | .error _ => l

def delete (l : Ledger) (id : FileId) : Checked StorageError Unit → Ledger
  | .ok _ => { l with files := fun f => if f = id then none else l.files f }
  | .error _ => l

def reopen (l : Ledger) : Ledger := { l with recovers := true }

/-- What the disk keeps of it. -/
def archive (size : Nat) (l : Ledger) : Archive :=
  ⟨l.name?, fun f => (l.files f).elim [] fun e => Page.installed size e.2, l.given⟩

end Ledger

/-- The calls on a volume that a client may make one after another. -/
inductive Call where
  | reserve
  | create (name : String)
  | createWithId (id : FileId) (name : String)
  | installPage (id : FileId) (i : PageIndex) (page : Page)
  | loadPage (id : FileId) (i : PageIndex)
  | delete (id : FileId)
  | close
  | reopen (poolPages : Nat)

/-- One call, however it ends. Names are those of component files, ids do not run out, an id that was
reserved is given to one file at most, and pages have the size of the volume and lie, up to their end, at
offsets of 64 bits. -/
inductive Step (dir : Path) (size : Nat) : Call → Ledger → Mounted → Ledger → Mounted → Prop
  | reserve {l m id m'} (valid : m.volume.catalog.nextId ≠ FileId.none)
      (done : Mounted.reserveId.start m = (.ok id, m')) : Step dir size .reserve l m (l.reserve id) m'
  | create {l m name r m'} (named : Component.FileName name) (valid : m.volume.catalog.nextId ≠ FileId.none)
      (done : (Mounted.create name).start m = (r, m')) : Step dir size (.create name) l m (l.create name r) m'
  | createWithId {l : Ledger} {m id name r m'} (named : Component.FileName name) (reserved : id ∈ l.reserved)
      (done : (Mounted.createWithId id name).start m = (r, m')) :
      Step dir size (.createWithId id name) l m (l.createWithId id name r) m'
  | installPage {l m id i page r m'} (sized : page.size = size) (placed : (i.toNat + 1) * size < UInt64.size)
      (done : (Mounted.installPage id i page).start m = (r, m')) :
      Step dir size (.installPage id i page) l m (l.installPage id i page r) m'
  | loadPage {l m id i r m'} (done : (Mounted.loadPage id i).start m = (r, m')) :
      Step dir size (.loadPage id i) l m l m'
  | delete {l m id r m'} (done : (Mounted.delete id).start m = (r, m')) :
      Step dir size (.delete id) l m (l.delete id r) m'
  | close {l m r m'} (done : Mounted.close.start m = (r, m')) : Step dir size .close l m l m'
  | reopen {l m pool v d} (done : (mount dir size pool).start m.disk = (.ok v, d)) :
      Step dir size (.reopen pool) l m l.reopen ⟨d, v⟩

/-- Calls that are made one after another. -/
inductive Steps (dir : Path) (size : Nat) : List Call → Ledger → Mounted → Ledger → Mounted → Prop
  | none {l m} : Steps dir size [] l m l m
  | next {c cs l m l₁ m₁ l' m'} (first : Step dir size c l m l₁ m₁) (rest : Steps dir size cs l₁ m₁ l' m') :
      Steps dir size (c :: cs) l m l' m'

/-- What can be reached from a directory without a catalog, on a disk that works and where its names fit. -/
inductive Reached (dir : Path) (size : Nat) : Ledger → Mounted → Prop
  | opened {disk d place pool v d'} (made : (Disk.makeDirectories dir).Gives disk () d)
      (live : d.outage = none) (houses : d.Houses dir place) (new : d.node? place Catalog.fileName = none)
      (room : dir.Fits Catalog.temporaryName) (done : (mount dir size pool).start disk = (.ok v, d')) :
      Reached dir size .empty ⟨d', v⟩
  | step {c l m l' m'} (h : Reached dir size l m) (next : Step dir size c l m l' m') : Reached dir size l' m'

/-- A ledger that is right about a volume. -/
structure Ledger.Stands (dir : Path) (place : Location) (size : Nat) (l : Ledger) (m : Mounted) : Prop where
  archives : m.Archives dir place size (l.archive size)
  given : ∀ {id}, l.files id ≠ none → l.given id
  sealable : ∀ {id e}, l.files id = some e → ∀ x ∈ e.2, 6 ≤ x.2.size
  fresh : ∀ id ∈ l.reserved, ¬ l.given id ∧ id ≠ FileId.none
  nodup : l.reserved.Nodup
  below : l.recovers = false → ∀ id ∈ l.reserved, id < m.volume.catalog.nextId

theorem Ledger.archive_withFile {size : Nat} (l : Ledger) (id : FileId) (name : String) :
    (l.withFile id name).archive size = (l.archive size).withFile id name := by
  simp only [archive, Ledger.withFile, Archive.withFile, Archive.mk.injEq, and_true]
  constructor
  · funext f
    simp only [name?]
    split <;> rfl
  · funext f
    split <;> rfl

namespace Ledger.Stands

variable {dir : Path} {place : Location} {size : Nat} {l l' : Ledger} {m m' : Mounted} {id : FileId}
  {name : String}

theorem not_given_next (h : l.Stands dir place size m) : ¬ l.given m.volume.catalog.nextId := fun hg =>
  UInt32.lt_irrefl _ (h.archives.catalog.next hg)

/-- Another volume in memory that handed out no id less. -/
theorem congr (h : l.Stands dir place size m) (ha : m'.Archives dir place size (l.archive size))
    (hnext : m.volume.catalog.nextId ≤ m'.volume.catalog.nextId) : l.Stands dir place size m' :=
  { h with archives := ha, below := fun hr id hid => UInt32.lt_of_lt_of_le (h.below hr id hid) hnext }

theorem handOut (h : l.Stands dir place size m) : l.handOut.Stands dir place size m where
  archives := h.archives
  given := h.given
  sealable := h.sealable
  fresh id hid := by
    simp only [Ledger.handOut] at hid
    split at hid
    · cases hid
    · exact h.fresh id hid
  nodup := by
    simp only [Ledger.handOut]
    split
    · exact .nil
    · exact h.nodup
  below _ id hid := by
    simp only [Ledger.handOut] at hid
    split at hid
    · cases hid
    · next hr => exact h.below (by simpa using hr) id hid

theorem reserve (h : l.Stands dir place size m) (hvalid : m.volume.catalog.nextId ≠ FileId.none)
    (hm' : m'.Archives dir place size (l.archive size))
    (hnext : m'.volume.catalog.nextId = m.volume.catalog.nextId + 1) :
    (l.reserve m.volume.catalog.nextId).Stands dir place size m' := by
  have hlt := (FileId.lt_succ hvalid).1
  have ho := h.handOut
  refine ⟨hm', h.given, h.sealable, fun id hid => ?_, ?_, fun _ id hid => ?_⟩
  · rcases List.mem_cons.mp hid with rfl | hid
    · exact ⟨h.not_given_next, hvalid⟩
    · exact ho.fresh id hid
  · exact List.nodup_cons.mpr ⟨fun hmem => UInt32.lt_irrefl _ (ho.below rfl _ hmem), ho.nodup⟩
  · rw [hnext]
    rcases List.mem_cons.mp hid with rfl | hid
    · exact hlt
    · exact UInt32.lt_trans (ho.below rfl id hid) hlt

/-- A file is registered. -/
theorem withFile (h : l.Stands dir place size m)
    (hm' : m'.Archives dir place size ((l.archive size).withFile id name))
    (hnext : m.volume.catalog.nextId ≤ m'.volume.catalog.nextId) :
    (l.withFile id name).Stands dir place size m' where
  archives := archive_withFile l id name ▸ hm'
  given {f} hf := by
    simp only [Ledger.withFile] at hf
    split at hf
    · next he => exact .inl he
    · exact .inr (h.given hf)
  sealable {f e} hf := by
    simp only [Ledger.withFile] at hf
    split at hf
    · obtain rfl := Option.some.inj hf
      exact nofun
    · exact h.sealable hf
  fresh f hf := by
    obtain ⟨hne, hmem⟩ := h.nodup.mem_erase_iff.mp hf
    exact ⟨fun hg => hg.elim hne (h.fresh f hmem).1, (h.fresh f hmem).2⟩
  nodup := h.nodup.erase id
  below hr f hf := UInt32.lt_of_lt_of_le (h.below hr f (List.mem_of_mem_erase hf)) hnext

theorem installPage (h : l.Stands dir place size m) {i : PageIndex} {page : Page} (hreg : l.files id ≠ none)
    (hsix : 6 ≤ page.size) (hm' : m'.Archives dir place size ((l.archive size).withPages id
      (Page.filled size ((l.archive size).pages id) i page.withSeal)))
    (hnext : m'.volume.catalog = m.volume.catalog) :
    (l.installPage id i page (.ok ())).Stands dir place size m' where
  archives := by
    obtain ⟨e, he⟩ := Option.ne_none_iff_exists'.mp hreg
    refine (congrArg (Mounted.Archives dir place size · m') ?_).mp hm'
    simp only [archive, Ledger.installPage, Archive.withPages, Archive.mk.injEq, and_true]
    constructor
    · funext f
      simp only [name?]
      split
      · next hf => rw [hf, he]; rfl
      · rfl
    · funext f
      split
      · rw [he]
        rfl
      · rfl
  given {f} hf := by
    simp only [Ledger.installPage] at hf
    split at hf
    · next hfid => exact h.given (hfid ▸ hreg)
    · exact h.given hf
  sealable {f e} hf := by
    simp only [Ledger.installPage] at hf
    split at hf
    · obtain ⟨e', he', rfl⟩ := Option.map_eq_some_iff.mp hf
      exact List.forall_mem_cons.mpr ⟨hsix, h.sealable he'⟩
    · exact h.sealable hf
  fresh := h.fresh
  nodup := h.nodup
  below hr f hf := hnext ▸ h.below hr f hf

theorem delete (h : l.Stands dir place size m) (hm' : m'.Archives dir place size ((l.archive size).without id))
    (hnext : m'.volume.catalog.nextId = m.volume.catalog.nextId) :
    (l.delete id (.ok ())).Stands dir place size m' where
  archives := by
    refine (congrArg (Mounted.Archives dir place size · m') ?_).mp hm'
    simp only [archive, Ledger.delete, Archive.without, Archive.mk.injEq, and_true]
    constructor
    · funext f
      simp only [name?]
      split <;> rfl
    · funext f
      split <;> rfl
  given {f} hf := by
    simp only [Ledger.delete] at hf
    split at hf
    · exact absurd rfl hf
    · exact h.given hf
  sealable {f e} hf := by
    simp only [Ledger.delete] at hf
    split at hf
    · cases hf
    · exact h.sealable hf
  fresh := h.fresh
  nodup := h.nodup
  below hr f hf := hnext ▸ h.below hr f hf

/-- A ledger stays right, whatever call is made and however it ends. -/
theorem step {c : Call} (h : l.Stands dir place size m) (hs : Step dir size c l m l' m') :
    l'.Stands dir place size m' := by
  cases hs with
  | reserve valid done =>
    obtain ⟨_, hg, ha, hnext⟩ := h.archives.reserve valid
    obtain ⟨rfl, rfl⟩ := hg.unique done
    exact h.reserve valid ha hnext
  | @create _ _ name r _ named valid done =>
    have hends := h.archives.create_ends valid named
    cases r with
    | error cause =>
      obtain ⟨ha, hlt⟩ := hends.of_error done
      exact h.handOut.congr ha (UInt32.le_of_lt hlt)
    | ok id =>
      obtain ⟨rfl, -, ha, hlt⟩ := hends.of_gives done
      exact h.handOut.withFile ha (UInt32.le_of_lt hlt)
  | @createWithId _ _ id name r _ named reserved done =>
    have hends := h.archives.createWithId_ends (h.fresh id reserved).2 named
    cases r with
    | error cause => exact hends.of_error done ▸ h
    | ok u =>
      obtain ⟨-, ha, hc⟩ := hends.of_gives done
      exact h.withFile ha (hc ▸ Catalog.nextId_le_insert _ id name)
  | @installPage _ _ id i page r _ sized _ done =>
    have hends := h.archives.installPage_ends sized id i
    cases r with
    | error cause => exact hends.of_error done ▸ h
    | ok u =>
      obtain ⟨hreg, hsix, ha, hc⟩ := hends.of_gives done
      exact h.installPage (fun hnone => hreg (by simp [archive, name?, hnone])) (sized ▸ hsix) ha hc
  | @loadPage _ _ id i r _ done =>
    have hends := h.archives.loadPage_ends id i
    cases r with
    | error cause => exact hends.of_error done ▸ h
    | ok page =>
      obtain ⟨ha, hc⟩ := hends.of_gives done
      exact h.congr ha (hc ▸ UInt32.le_refl _)
  | @delete _ _ id r _ done =>
    have hends := h.archives.delete_ends id
    cases r with
    | error cause => exact (hends.of_error done).2.2 ▸ h
    | ok u =>
      obtain ⟨-, ha, hc⟩ := hends.of_gives done
      exact h.delete ha hc
  | close done =>
    obtain ⟨_, hg, ha, hc⟩ := h.archives.close
    obtain ⟨-, rfl⟩ := Prod.mk.inj (hg.eq.symm.trans done)
    exact h.congr ha (hc ▸ UInt32.le_refl _)
  | reopen done => exact { h with archives := h.archives.of_reopened done, below := nofun }

theorem steps {cs : List Call} (h : l.Stands dir place size m) (hs : Steps dir size cs l m l' m') :
    l'.Stands dir place size m' := by
  induction hs with
  | none => exact h
  | next first _ ih => exact ih (h.step first)

end Ledger.Stands

theorem Reached.stands {dir : Path} {size : Nat} {l : Ledger} {m : Mounted} (h : Reached dir size l m) :
    ∃ place, l.Stands dir place size m := by
  induction h with
  | @opened _ _ place _ _ _ made live houses new room done =>
    exact ⟨place, .of_new made live houses new room done, nofun, nofun, nofun, .nil, nofun⟩
  | step _ next ih => exact ih.imp fun _ h => h.step next

end Volume

end RefStore
