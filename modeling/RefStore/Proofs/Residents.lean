import RefStore.Proofs.Maps
import RefStore.Proofs.Neighbours
import RefStore.Proofs.Stages
import RefStore.Proofs.Stocks
import RefStore.Proofs.Transactions
import RefStore.Storage.Engine

/-!
# Committed pages in memory

A commit that succeeds has put the pages of an operation in the place of those before, each with a
seal. The disk is left aside here: all that counts is that every step succeeded. Main statement:
`Engine.commit_resident`.
-/

namespace RefStore

namespace Mounted

/-- The last steps of making a file, after what stood under its name was removed. -/
def register (path : Path) (size : Nat) (id : FileId) (name : String) :
    Task Mounted StorageError Unit := do
  let file ← PagedFile.create path size
  let length := name.utf8ByteSize
  if Catalog.longestName < length then
    refuse (.corruption s!"file name too long: {length} bytes")
  recatalog (·.insert id name)
  updateVolume (·.withFile id ⟨name, file, ∅⟩)

theorem createWithId_eq (id : FileId) (name : String) : createWithId id name = (do
    let v := (← Task.state).volume
    if (v.idOf? name).isSome then refuse (.fileExists name)
    if (← Disk.exists? (v.directory.join name)) then Disk.removeFile (v.directory.join name)
    register (v.directory.join name) v.pageSize id name) := rfl

/-- What holds of a volume, and has to do neither with its disk nor with one of its files. -/
structure Spares (id : FileId) (P : Mounted → Prop) : Prop where
  onDisk : ∀ (m : Mounted) (d : Disk), P m → P (Part.put d m)
  enter : ∀ (m : Mounted) name, P m →
    P { m with volume := { m.volume with catalog := m.volume.catalog.insert id name } }
  strike : ∀ m : Mounted, P m →
    P { m with volume := { m.volume with catalog := m.volume.catalog.erase id } }
  withFile : ∀ (m : Mounted) g, P m → P { m with volume := m.volume.withFile id g }
  withoutFile : ∀ m : Mounted, P m →
    P { m with volume := { m.volume with files := m.volume.files.erase id } }

section

variable {id : FileId} {P : Mounted → Prop}

theorem openFile_keeps (P : Mounted → Prop) (id : FileId) : (openFile id).Keeps P := by
  refine .bind .state fun m => ?_
  cases m.volume.files[id]? with
  | some g => exact .pure g
  | none => exact .refuse _

theorem recatalog_keeps (hdisk : ∀ (m : Mounted) (d : Disk), P m → P (Part.put d m))
    {f : Catalog → Catalog}
    (hf : ∀ m : Mounted, P m → P { m with volume := { m.volume with catalog := f m.volume.catalog } }) :
    (recatalog f).Keeps P :=
  .bind (.change hf) fun _ => .bind .state fun _ => .onPart hdisk _

theorem delete_keeps (h : Spares id P) : (delete id).Keeps P := by
  refine .bind (openFile_keeps _ id) fun g => .bind (.change h.withoutFile) fun _ =>
    .bind .state fun m => ?_
  exact .guarded (recatalog_keeps h.onDisk h.strike) (.inPart h.onDisk _)

theorem withFile_keeps (h : Spares id P) (g : OpenFile) : (updateVolume (·.withFile id g)).Keeps P :=
  .change fun m hm => h.withFile m g hm

theorem installPage_keeps (h : Spares id P) (i : PageIndex) (page : Page) :
    (installPage id i page).Keeps P :=
  .bind (openFile_keeps _ id) fun _ => .bind (.ofChecked _) fun _ =>
    .bind (.inPart h.onDisk _) fun _ => withFile_keeps h _

theorem register_keeps (h : Spares id P) (path : Path) (n : Nat) (name : String) :
    (register path n id name).Keeps P := by
  refine .bind (.inPart h.onDisk _) fun g => .guarded (.refuse _) ?_
  exact .bind (recatalog_keeps h.onDisk fun m hm => h.enter m name hm) fun _ => withFile_keeps h _

theorem createWithId_keeps (h : Spares id P) (name : String) : (createWithId id name).Keeps P := by
  rw [createWithId_eq]
  refine .bind .state fun m => .guarded (.refuse _) (.bind (.inPart h.onDisk _) fun _ => ?_)
  exact .guarded (.inPart h.onDisk _) (register_keeps h _ _ name)

theorem sync_keeps (hdisk : ∀ (m : Mounted) (d : Disk), P m → P (Part.put d m)) (id : FileId) :
    (sync id).Keeps P :=
  .bind (openFile_keeps _ id) fun _ => .inPart hdisk _

end

/-- What a volume has in memory of one file. -/
def Holds (file : FileId) (f : Option OpenFile) (size : Nat) (m : Mounted) : Prop :=
  m.volume.files[file]? = f ∧ m.volume.pageSize = size

theorem Holds.spares {file id : FileId} {f : Option OpenFile} {size : Nat} (h : id ≠ file) :
    Spares id (Holds file f size) where
  onDisk _ _ hm := hm
  enter _ _ hm := hm
  strike _ hm := hm
  withFile m g hm := by
    refine ⟨Eq.trans ?_ hm.1, hm.2⟩
    simp only [Volume.withFile]
    exact lookup_insert_of_ne h.symm
  withoutFile m hm := by
    refine ⟨Eq.trans ?_ hm.1, hm.2⟩
    dsimp only
    exact lookup_erase_of_ne h.symm

/-- No number is handed out that was not. -/
theorem next_le_spares {id next : FileId} (h : id < next) : Spares id fun m => m.volume.catalog.nextId ≤ next where
  onDisk _ _ hm := hm
  enter m name hm := by
    have hle : id + 1 ≤ next := by
      rw [UInt32.le_iff_toNat_le, (FileId.lt_succ (FileId.ne_none_of_lt h)).2]
      exact UInt32.lt_iff_toNat_lt.mp h
    simp only [Catalog.insert, max]
    split
    · exact hle
    · exact hm
  strike _ hm := hm
  withFile _ _ hm := hm
  withoutFile _ hm := hm

/-- The ids handed out so far are below some number. -/
theorem next_spares (id next : FileId) : Spares id fun m => next ≤ m.volume.catalog.nextId where
  onDisk _ _ hm := hm
  enter m name hm := by
    simp only [Catalog.insert, max]
    split
    · next hle => exact UInt32.le_trans hm hle
    · exact hm
  strike _ hm := hm
  withFile _ _ hm := hm
  withoutFile _ hm := hm

theorem recatalog_gives {m m' : Mounted} {g : Catalog → Catalog} {u : Unit}
    (h : (recatalog g).Gives m u m') :
    m'.volume = { m.volume with catalog := g m.volume.catalog } := by
  have hk : (do
      let v := (← Task.state).volume
      v.catalog.save v.directory : Task Mounted StorageError Unit).Keeps
        fun x => x.volume = { m.volume with catalog := g m.volume.catalog } :=
    .bind .state fun _ => .onPart (fun _ _ h => h) _
  obtain ⟨_, m₁, h₁, h₂⟩ := Task.bind_gives h
  obtain rfl := Task.gives_change h₁
  exact hk.gives h₂ rfl

/-- A file that is registered has no pages, and is the only one that is new. -/
theorem register_gives {m m' : Mounted} {path : Path} {size : Nat} {id : FileId} {name : String}
    (h : (register path size id name).Gives m () m') : ∃ f : PagedFile, f.pageCount = 0 ∧
      m'.volume = { m.volume with
        catalog := m.volume.catalog.insert id name, files := m.volume.files.insert id ⟨name, f, ∅⟩ } := by
  obtain ⟨f, _, hc, h⟩ := Task.bind_gives h
  obtain ⟨_, hf, rfl⟩ := Task.inPart_gives hc
  dsimp only at h
  split at h
  · obtain ⟨_, _, h₁, -⟩ := Task.bind_gives h
    exact absurd h₁ Task.not_gives_refuse
  obtain ⟨_, m₁, h₁, h₂⟩ := Task.bind_gives h
  have hvolume := recatalog_gives h₁
  obtain rfl := Task.gives_change h₂
  exact ⟨f, congrArg PagedFile.pageCount (PagedFile.create_gives hf).1, by rw [hvolume]; rfl⟩

/-- So it is with a file that is made. -/
theorem createWithId_registers {m m' : Mounted} {id : FileId} {name : String}
    (h : (createWithId id name).Gives m () m') : ∃ f : PagedFile, f.pageCount = 0 ∧
      m'.volume = { m.volume with
        catalog := m.volume.catalog.insert id name, files := m.volume.files.insert id ⟨name, f, ∅⟩ } := by
  rw [createWithId_eq] at h
  obtain ⟨_, _, h₀, h⟩ := Task.bind_gives h
  obtain ⟨rfl, rfl⟩ := (Task.Gives.state m).unique h₀
  dsimp only at h
  split at h
  · obtain ⟨_, _, h₁, -⟩ := Task.bind_gives h
    exact absurd h₁ Task.not_gives_refuse
  obtain ⟨known, m₁, h₁, h⟩ := Task.bind_gives h
  obtain ⟨_, -, rfl⟩ := Task.inPart_gives h₁
  split at h
  · obtain ⟨_, _, h₂, h⟩ := Task.bind_gives h
    obtain ⟨_, -, rfl⟩ := Task.inPart_gives h₂
    obtain ⟨f, hf, hvolume⟩ := register_gives h
    exact ⟨f, hf, hvolume⟩
  · obtain ⟨f, hf, hvolume⟩ := register_gives h
    exact ⟨f, hf, hvolume⟩

/-- A file that was made for a volume has no pages. -/
theorem createWithId_gives {m m' : Mounted} {id : FileId} {name : String}
    (h : (createWithId id name).Gives m () m') :
    m'.Resident id [] ∧ m'.volume.pageSize = m.volume.pageSize := by
  obtain ⟨f, hf, hvolume⟩ := createWithId_registers h
  refine ⟨⟨⟨name, f, ∅⟩, by simp [hvolume], hf, by decide, fun i hi => ?_⟩, by rw [hvolume]⟩
  exact absurd hi (Nat.not_lt_zero _)

/-- A page is put in its place, with a seal. -/
theorem installPage_gives {m m' : Mounted} {file : FileId} {cur : List Page} {i : PageIndex}
    {page : Page} (hr : m.Resident file cur) (hi : i.toNat ≤ cur.length)
    (hb : i.toNat + 1 < UInt64.size) (hp : 8 ≤ page.size)
    (h : (installPage file i page).Gives m () m') :
    m'.Resident file (Page.placed cur i page.withSeal) ∧
      m'.volume.pageSize = m.volume.pageSize := by
  obtain ⟨f, hf, hc, hlt, hres⟩ := hr
  rw [installPage, Task.Gives, (openFile_known hf).start_bind] at h
  obtain ⟨stored, _, h₁, h⟩ := Task.bind_gives h
  obtain ⟨hs, rfl⟩ := Task.gives_ofChecked h₁
  obtain rfl : page.withSeal = stored := by
    rw [Page.sealed_eq (Nat.le_trans (by decide) hp)] at hs
    exact Except.ok.inj hs
  obtain ⟨g, _, h₂, h⟩ := Task.bind_gives h
  obtain ⟨_, hg, rfl⟩ := Task.inPart_gives h₂
  obtain rfl := Task.gives_change h
  obtain ⟨-, rfl, -⟩ := PagedFile.writePage_gives hg
  have hcount : i < f.file.pageCount ↔ i.toNat < cur.length := by
    rw [UInt64.lt_iff_toNat_lt, hc, UInt64.toNat_ofNat_of_lt' hlt]
  refine ⟨⟨_, Std.TreeMap.getElem?_insert_self, ?_⟩, rfl⟩
  by_cases hnew : i.toNat < cur.length
  · rw [Page.placed_of_lt hnew, if_pos (hcount.mpr hnew), List.length_set]
    refine ⟨hc, hlt, fun j hj => ?_⟩
    rw [lookup_insert]
    split
    · next heq => rw [heq, List.getElem?_set_self hnew]
    · next hne =>
      rw [List.getElem?_set_ne fun heq => hne (UInt64.toNat_inj.mp heq.symm)]
      exact hres j hj
  · have hlast : i.toNat = cur.length := by omega
    rw [Page.placed_of_le (by omega), if_neg (hcount.not.mpr hnew), List.length_append, List.length_singleton]
    refine ⟨?_, by omega, fun j hj => ?_⟩
    · rw [UInt64.ofNat_add, ← hlast, UInt64.ofNat_toNat]
      rfl
    · rw [lookup_insert]
      split
      · next heq => rw [heq, hlast, List.getElem?_concat_length]
      · next hne =>
        have hjl : j.toNat ≠ cur.length := fun heq => hne (UInt64.toNat_inj.mp (heq.trans hlast.symm))
        rw [List.getElem?_append_left (by omega)]
        exact hres j (by omega)

end Mounted

namespace Mounted

variable {op : Operation} {file : FileId} {base pages cur : List Page}

theorem Resident.keep {m m' : Mounted} (h : m.Resident file cur)
    (hm : m'.Holds file m.volume.files[file]? m.volume.pageSize) : m'.Resident file cur := by
  obtain ⟨f, hf, hrest⟩ := h
  exact ⟨f, hm.1.trans hf, hrest⟩

theorem Resident.congr {m m' : Mounted} (h : m.Resident file cur) (hv : m'.volume = m.volume) :
    m'.Resident file cur := h.keep ⟨by rw [hv], by rw [hv]⟩

/-- The changes of an operation are put in place one by one. -/
theorem installs_gives {size : Nat} (hd : op.Drafts file size base pages) (hroom : 8 ≤ size)
    {done rest : List (FileId × PageIndex × Draft)} (hall : op.changes = done ++ rest)
    {m m' : Mounted} (hr : m.Resident file cur) (hs : Operation.Staged file base done done cur)
    (h : (rest.forM fun (file, index, d) => installPage file index d.overlay.page).Gives m () m') :
    (∃ cur', m'.Resident file cur' ∧ Operation.Staged file base op.changes op.changes cur') ∧
      m'.volume.pageSize = m.volume.pageSize := by
  induction rest generalizing done cur m with
  | nil =>
    obtain ⟨-, rfl⟩ := Task.gives_pure h
    rw [List.append_nil] at hall
    exact ⟨⟨cur, hr, hall ▸ hs⟩, rfl⟩
  | cons c rest ih =>
    obtain ⟨f, i, d⟩ := c
    obtain ⟨_, m₁, h₁, h⟩ := Task.bind_gives h
    have hall' : op.changes = (done ++ [(f, i, d)]) ++ rest := by simpa using hall
    by_cases hf : f = file
    · subst hf
      have hx : (f, i, d) ∈ op.changes := hall ▸ List.mem_append_right _ List.mem_cons_self
      obtain ⟨hlt, -, ht, hds⟩ := hd.change hx
      have hsize : 8 ≤ d.overlay.page.size := by
        rw [Overlay.size_page ht, hds]
        exact hroom
      have hi := hs.le_length hd hall hr.length_lt
      have hbound := hd.bound
      have hbegun : ∀ j e, (f, j, e) ∈ done → (f, j, e) ∈ op.changes := fun j e he =>
        hall ▸ List.mem_append_left _ he
      obtain ⟨hr₁, hsize₁⟩ := installPage_gives hr hi (by omega) hsize h₁
      obtain ⟨hend, hps⟩ := ih hall' hr₁ (hs.install hd hroom hbegun hall hi) h
      exact ⟨hend, hps.trans hsize₁⟩
    · have hk := (installPage_keeps (Holds.spares hf) i d.overlay.page).gives h₁ ⟨rfl, rfl⟩
      have hmem : ∀ j e, (file, j, e) ∈ done ++ [(f, i, d)] ↔ (file, j, e) ∈ done := by
        intro j e
        simp [Ne.symm hf]
      obtain ⟨hend, hps⟩ := ih hall' (hr.keep hk) (hs.congr hmem hmem) h
      exact ⟨hend, hps.trans hk.2⟩

theorem forM_gives_keep (file : FileId) {α : Type} {xs : List α} {g : α → Task Mounted StorageError Unit}
    {m m' : Mounted}
    (hg : ∀ x ∈ xs, (g x).Keeps (Holds file m.volume.files[file]? m.volume.pageSize))
    (h : (xs.forM g).Gives m () m') : m'.Holds file m.volume.files[file]? m.volume.pageSize :=
  (Task.Keeps.forM hg).gives h ⟨rfl, rfl⟩

end Mounted

namespace Engine

variable {op : Operation} {file : FileId} {base pages : List Page}

/-- How a file comes into an operation: the operation adds it, or it is committed. -/
def Known (op : Operation) (file : FileId) (m : Mounted) (base : List Page) : Prop :=
  (∃ name, op.created = [(file, name)]) ∧ base = [] ∨
    (∀ x ∈ op.created, x.1 ≠ file) ∧ m.Resident file base

theorem Known.congr {m m' : Mounted} (h : Known op file m base) (hv : m'.volume = m.volume) :
    Known op file m' base := h.imp_right fun ⟨ho, hr⟩ => ⟨ho, hr.congr hv⟩

/-- What is done to the pages of a file does not change how a file came into the operation. -/
theorem Known.alters {m : Mounted} {other : FileId} {t : Transaction} (h : Known op file m base)
    (ha : Transaction.Alters other ⟨m, op⟩ t) : Known t.operation file m base := by
  rw [Known, ha.created]
  exact h

theorem install_gives {m m' : Mounted} {syncs : Bool} (hk : Known op file m base)
    (hd : op.Drafts file m.volume.pageSize base pages) (hroom : 8 ≤ m.volume.pageSize)
    (h : (install op syncs).Gives m () m') :
    (∃ cur, m'.Resident file cur ∧ List.Forall₂ Page.Alike pages cur) ∧
      m'.volume.pageSize = m.volume.pageSize := by
  obtain ⟨_, m₁, h₁, h⟩ := Task.bind_gives h
  obtain ⟨_, m₂, h₂, h⟩ := Task.bind_gives h
  obtain ⟨_, m₃, h₃, h₄⟩ := Task.bind_gives h
  have hk₁ : m₁.Holds file m.volume.files[file]? m.volume.pageSize := by
    refine Mounted.forM_gives_keep file (fun id hid => Mounted.delete_keeps (Mounted.Holds.spares ?_)) h₁
    rintro rfl
    exact hd.kept (Std.TreeSet.mem_toList.mp hid)
  have hr₂ : m₂.Resident file base ∧ m₂.volume.pageSize = m.volume.pageSize := by
    rcases hk with ⟨⟨name, hc⟩, rfl⟩ | ⟨hother, hr⟩
    · rw [hc] at h₂
      obtain ⟨_, _, hmade, hend⟩ := Task.bind_gives h₂
      obtain ⟨-, rfl⟩ := Task.gives_pure hend
      obtain ⟨hres, hps⟩ := Mounted.createWithId_gives hmade
      exact ⟨hres, hps.trans hk₁.2⟩
    · have hk₂ := Mounted.forM_gives_keep file
        (fun x hx => Mounted.createWithId_keeps (Mounted.Holds.spares (hother x hx)) x.2) h₂
      exact ⟨(hr.keep hk₁).keep hk₂, hk₂.2.trans hk₁.2⟩
  obtain ⟨⟨cur, hr₃, hs₃⟩, hps₃⟩ := Mounted.installs_gives hd hroom (List.nil_append _).symm hr₂.1
    (.start file base) h₃
  have hk₄ : m'.Holds file m₃.volume.files[file]? m₃.volume.pageSize := by
    cases syncs with
    | false =>
      obtain ⟨-, rfl⟩ := Task.gives_pure h₄
      exact ⟨rfl, rfl⟩
    | true => exact Mounted.forM_gives_keep file (fun id _ => Mounted.sync_keeps (fun _ _ hm => hm) id) h₄
  exact ⟨⟨cur, hr₃.keep hk₄, hs₃.all hd hroom hr₃.length_lt⟩, hk₄.2.trans (hps₃.trans hr₂.2)⟩

/-- An engine that differs from another one in what it has logged. -/
structure Logged (e₀ e : Engine) : Prop where
  volume : e.mounted.volume = e₀.mounted.volume
  log : e.journal.log = e₀.journal.log
  disk : ∃ c, Disk.Rewrites e₀.journal.log.node c e₀.mounted.disk e.mounted.disk

section

variable {e₀ : Engine}

theorem Logged.refl (e : Engine) : Logged e e := ⟨rfl, rfl, _, .refl _ _⟩

theorem markBroken_keeps : markBroken.Keeps (Logged e₀) := .change fun _ h => ⟨h.volume, h.log, h.disk⟩

/-- A task on the log leaves the volume alone. -/
theorem onLog_keeps {ε α : Type} [Within ε StorageError] {t : Task Disk ε α}
    (ht : t.Keeps fun d => ∃ c, Disk.Rewrites e₀.journal.log.node c e₀.mounted.disk d) :
    (liftM t : Task Engine StorageError α).Keeps (Logged e₀) :=
  .within (.within (.embed ht) (fun m (h : m.volume = e₀.mounted.volume ∧ ∃ c,
    Disk.Rewrites e₀.journal.log.node c e₀.mounted.disk m.disk) => h.2) fun _ _ h hd => ⟨h.1, hd⟩)
    (fun _ h => ⟨h.volume, h.disk⟩) fun _ _ h hm => ⟨hm.1, h.log, hm.2⟩

theorem append_keeps {log : Log} (h : log = e₀.journal.log) (records : List LogRecord) :
    (log.append records).Keeps fun d =>
      ∃ c, Disk.Rewrites e₀.journal.log.node c e₀.mounted.disk d :=
  .bind (.bind .state fun _ => .pure _) fun _ => .embed (h ▸ Disk.writeAt_only _ _ _ _)

theorem syncLog_keeps (log : Log) :
    log.sync.Keeps fun d => ∃ c, Disk.Rewrites e₀.journal.log.node c e₀.mounted.disk d := by
  have h : Disk.Only e₀.journal.log.node (.sync log.node) := trivial
  rw [Log.sync]
  split
  · exact .embed (Disk.perform_only h _)
  · exact .pure ()

theorem truncateTo_keeps {log : Log} (h : log = e₀.journal.log) (offset : Nat) :
    (log.truncateTo offset).Keeps fun d =>
      ∃ c, Disk.Rewrites e₀.journal.log.node c e₀.mounted.disk d :=
  .bind (.embed (h ▸ Disk.setLength_only _ _ _)) fun _ => syncLog_keeps log

/-- Recording an operation concerns the log only. -/
theorem record_keeps (op : Operation) : (record op).Keeps (Logged e₀) := by
  intro e he
  rw [record, (Task.Gives.state e).start_bind]
  have hlog := he.log
  refine Task.Keeps.bind (onLog_keeps (.bind .state fun _ => .pure _)) (fun stop => ?_) e he
  refine .bind (.attempt (.bind (onLog_keeps (append_keeps hlog _)) fun _ =>
    onLog_keeps (syncLog_keeps _))) fun done => ?_
  cases done with
  | ok _ => exact .pure ()
  | error cause =>
    refine .bind (.attempt (onLog_keeps (truncateTo_keeps hlog _))) fun cut => ?_
    cases cut with
    | ok _ => exact .refuse cause
    | error _ => exact .bind markBroken_keeps fun _ => .refuse cause

/-- So does emptying the log in the end. -/
theorem empty_keeps {log : Log} (h : log = e₀.journal.log) : (do
    let emptied : Task Engine StorageError Unit := log.truncate
    if let .error _ ← emptied.attempt then markBroken :
      Task Engine StorageError Unit).Keeps (Logged e₀) := by
  refine .bind (.attempt (onLog_keeps (truncateTo_keeps h 0))) fun done => ?_
  cases done with
  | ok _ => exact .pure ()
  | error _ => exact markBroken_keeps

end

/-- A commit records the operation, carries it out, and empties the log. -/
theorem commit_gives {e e' : Engine} (h : (commit op).Gives e () e') :
    op.isEmpty = true ∧ e' = e ∨
      op.isEmpty = false ∧ ∃ e₁ m, Logged e e₁ ∧ (install op e₁.journal.log.syncs).Gives e₁.mounted () m ∧
        Logged { e₁ with mounted := m } e' := by
  rw [commit] at h
  split at h
  · next hempty =>
    obtain ⟨-, rfl⟩ := Task.gives_pure h
    exact .inl ⟨hempty, rfl⟩
  · next hempty =>
    obtain ⟨_, e₁, h₁, h⟩ := Task.bind_gives h
    have hl₁ := (record_keeps op).gives h₁ (Logged.refl e)
    obtain ⟨_, _, h₂, h⟩ := Task.bind_gives h
    obtain ⟨rfl, rfl⟩ := (Task.Gives.state e₁).unique h₂
    obtain ⟨done, e₂, h₃, h⟩ := Task.bind_gives h
    cases done with
    | error cause =>
      obtain ⟨_, _, -, h⟩ := Task.bind_gives h
      obtain ⟨_, _, h₄, -⟩ := Task.bind_gives h
      exact absurd h₄ Task.not_gives_refuse
    | ok _ =>
      obtain ⟨m, hi, rfl⟩ := Task.onPart_gives (Task.attempt_ok_gives h₃)
      exact .inr ⟨by simpa using hempty, e₁, m, hl₁, hi, (empty_keeps rfl).gives h (Logged.refl _)⟩

/-- An operation without changes has the pages that are committed. -/
theorem resident_of_isEmpty {m : Mounted} (he : op.isEmpty = true) (hk : Known op file m base)
    (hd : op.Drafts file m.volume.pageSize base pages) (hroom : 8 ≤ m.volume.pageSize) :
    m.Resident file base ∧ List.Forall₂ Page.Alike pages base := by
  simp only [Operation.isEmpty, Bool.and_eq_true, List.isEmpty_iff] at he
  obtain ⟨⟨hcreated, -⟩, hchanges⟩ := he
  rcases hk with ⟨⟨name, hc⟩, -⟩ | ⟨-, hr⟩
  · rw [hcreated] at hc
    cases hc
  · have hs : Operation.Staged file base op.changes op.changes base := by
      rw [hchanges]
      exact .start file base
    exact ⟨hr, hs.all hd hroom hr.length_lt⟩

/-- The pages of an operation that was committed are in memory. -/
theorem commit_resident {e e' : Engine} (h : (commit op).Gives e () e')
    (hk : Known op file e.mounted base) (hd : op.Drafts file e.mounted.volume.pageSize base pages)
    (hroom : 8 ≤ e.mounted.volume.pageSize) :
    (∃ cur, e'.mounted.Resident file cur ∧ List.Forall₂ Page.Alike pages cur) ∧
      e'.mounted.volume.pageSize = e.mounted.volume.pageSize := by
  rcases commit_gives h with ⟨hempty, rfl⟩ | ⟨-, e₁, m, hl, hi, hl'⟩
  · exact ⟨⟨base, resident_of_isEmpty hempty hk hd hroom⟩, rfl⟩
  · rw [← hl.volume] at hd hroom
    obtain ⟨⟨cur, hr, ha⟩, hps⟩ := install_gives (hk.congr hl.volume) hd hroom hi
    exact ⟨⟨cur, hr.congr hl'.volume, ha⟩,
      (congrArg Volume.pageSize hl'.volume).trans (hps.trans (congrArg _ hl.volume))⟩

/-- What has to do neither with the disk nor with the files of the operation outlasts a commit. -/
theorem commit_spares {P : Mounted → Prop} (hdisk : ∀ (m : Mounted) (d : Disk), P m → P (Part.put d m))
    (hP : ∀ id, op.Concerns id → Mounted.Spares id P) {e e' : Engine}
    (h : (commit op).Gives e () e') (hs : P e.mounted) : P e'.mounted := by
  have hvolume {m m' : Mounted} (hv : m'.volume = m.volume) (hm : P m) : P m' := by
    have hput := hdisk m m'.disk hm
    rwa [show Part.put m'.disk m = m' from congrArg (Mounted.mk m'.disk) hv.symm] at hput
  have hinstall (syncs : Bool) : (install op syncs).Keeps P := by
    refine .bind (.forM fun id hid => Mounted.delete_keeps (hP id (.inl (Std.TreeSet.mem_toList.mp hid)))) fun _ =>
      .bind (.forM fun x hx => Mounted.createWithId_keeps (hP x.1 (.inr (.inl ⟨x.2, hx⟩))) x.2) fun _ =>
      .bind (.forM fun x hx =>
        Mounted.installPage_keeps (hP x.1 (.inr (.inr ⟨x.2.1, x.2.2, hx⟩))) x.2.1 _) fun _ => ?_
    split
    · exact .forM fun id _ => Mounted.sync_keeps hdisk id
    · exact .pure ()
  rcases commit_gives h with ⟨-, rfl⟩ | ⟨-, e₁, m, hl, hi, hl'⟩
  · exact hs
  · exact hvolume hl'.volume ((hinstall _).gives hi (hvolume hl.volume hs))

/-- Ids that were handed out before a commit are not handed out again. -/
theorem commit_next {e e' : Engine} (h : (commit op).Gives e () e') :
    e.mounted.volume.catalog.nextId ≤ e'.mounted.volume.catalog.nextId :=
  commit_spares (fun _ _ hm => hm) (fun id _ => Mounted.next_spares id _) h (UInt32.le_refl _)

/-- A commit hands out no ids. -/
theorem commit_next_eq {e e' : Engine} (h : (commit op).Gives e () e')
    (hop : ∀ id, op.Concerns id → id < e.mounted.volume.catalog.nextId) :
    e'.mounted.volume.catalog.nextId = e.mounted.volume.catalog.nextId :=
  UInt32.le_antisymm
    (commit_spares (fun _ _ hm => hm) (fun id hid => Mounted.next_le_spares (hop id hid)) h (UInt32.le_refl _))
    (commit_next h)

/-- Pages keep their size. -/
theorem commit_pageSize {e e' : Engine} (h : (commit op).Gives e () e') :
    e'.mounted.volume.pageSize = e.mounted.volume.pageSize :=
  commit_spares (P := fun m => m.volume.pageSize = e.mounted.volume.pageSize) (fun _ _ h => h)
    (fun _ _ => ⟨fun _ _ h => h, fun _ _ h => h, fun _ h => h, fun _ _ h => h, fun _ h => h⟩) h rfl

/-- A commit that fails and leaves the engine usable concerned the log only. -/
theorem commit_fails {e e' : Engine} {cause : StorageError}
    (h : (commit op).start e = (.error (.error cause), e')) (hu : e'.journal.broken = false) :
    Logged e e' := by
  rw [commit] at h
  split at h
  · cases h
  rw [Task.start_bind] at h
  have hl := record_keeps op e (Logged.refl e)
  rcases hr : (record op).start e with ⟨_ | u, e₁⟩ <;> rw [hr] at h hl
  · obtain ⟨-, rfl⟩ := Prod.mk.inj h
    exact hl
  · dsimp only at h hl
    rw [(Task.Gives.state e₁).start_bind, Task.start_bind] at h
    generalize hi : (liftM (install op e₁.journal.log.syncs) : Task Engine StorageError Unit) = t at h
    rw [Task.attempt, Task.start_ofStep] at h
    rcases ht : t.start e₁ with ⟨(c | k) | u', e₂⟩ <;> rw [ht] at h
    · -- the operation could not be carried out, so the engine is broken
      dsimp only at h
      rw [show markBroken = Task.change _ from rfl, (Task.Gives.change _ e₂).start_bind] at h
      obtain ⟨-, rfl⟩ := Prod.mk.inj h
      cases hu
    · cases h
    · dsimp only at h
      rw [Task.start_bind, Task.attempt, Task.start_ofStep] at h
      rcases hz : (liftM e₁.journal.log.truncate : Task Engine StorageError Unit).start e₂ with
        ⟨(c | k) | u'', e₃⟩ <;> rw [hz] at h <;> cases h

theorem checkUsable_gives {e : Engine} (h : e.journal.broken = false) : checkUsable.Gives e () e := by
  refine (Task.Gives.state e).bind ?_
  rw [if_neg (by rw [h]; exact Bool.false_ne_true)]
  exact .pure () e

theorem checkUsable_refuses {e : Engine} (h : e.journal.broken = true) :
    checkUsable.start e = (refuse .recoveryRequired, e) := by
  rw [checkUsable, (Task.Gives.state e).start_bind, if_pos h]
  rfl

theorem start_of_usable {e : Engine} (h : e.journal.broken = false) :
    start.Gives e (.fresh e.journal.nextOperation)
      { e with journal := { e.journal with nextOperation := e.journal.nextOperation + 1 } } :=
  (checkUsable_gives h).bind ((Task.Gives.state e).bind ((Task.Gives.change _ e).bind (.pure _ _)))

theorem exists_start {e : Engine} (h : e.journal.broken = false) : ∃ op e', start.Gives e op e' :=
  ⟨_, _, start_of_usable h⟩

/-- An operation is started only if the engine is usable, and takes the next number. -/
theorem start_eq {e e' : Engine} (h : start.Gives e op e') : e.journal.broken = false ∧
    op = .fresh e.journal.nextOperation ∧
      e' = { e with journal := { e.journal with nextOperation := e.journal.nextOperation + 1 } } := by
  cases hb : e.journal.broken with
  | true =>
    obtain ⟨_, _, h₁, -⟩ := Task.bind_gives h
    rw [Task.Gives, checkUsable_refuses hb] at h₁
    cases h₁
  | false =>
    obtain ⟨_, _, h₁, h⟩ := Task.bind_gives h
    obtain ⟨-, rfl⟩ := (checkUsable_gives hb).unique h₁
    obtain ⟨_, _, h₂, h⟩ := Task.bind_gives h
    obtain ⟨rfl, rfl⟩ := (Task.Gives.state e).unique h₂
    obtain ⟨_, _, h₃, h⟩ := Task.bind_gives h
    obtain rfl := Task.gives_change h₃
    exact ⟨rfl, Task.gives_pure h⟩

end Engine

end RefStore
