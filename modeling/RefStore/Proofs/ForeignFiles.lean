import RefStore.Proofs.Agreements
import RefStore.Proofs.Directories
import RefStore.Proofs.Isolation
import RefStore.Proofs.LastingCalls
import RefStore.Proofs.Maps
import RefStore.Proofs.Neighbours
import RefStore.Proofs.Residents

/-!
# Files that are not a volume's

Whatever a volume does, a file on its disk that is none of its own makes no difference to it. So on disks
that differ in that file only, its calls end alike and leave it alike. Main statements:
`Mounted.createWithId_agrees`, `Mounted.installPage_agrees` and `Mounted.SameAside.showsSame`.
-/

namespace RefStore

namespace Task.Agrees

variable {σ τ ε ε' α β : Type} {R : σ → σ → Prop}

/-- What follows may count on what the first task can give. -/
theorem bind_gives {t : Task σ ε α} {f : α → Task σ ε β} (h : Agrees R t)
    (h' : ∀ a s s' z, R s z → t.Gives s a s' → Agrees R (f a)) : Agrees R (t >>= f) := by
  intro s z hs
  obtain ⟨heq, hr⟩ := h s z hs
  rw [start_bind, start_bind]
  rcases hx : t.start s with ⟨x, s'⟩
  rcases hy : t.start z with ⟨y, z'⟩
  rw [hx, hy] at heq hr
  obtain rfl : x = y := heq
  cases x with
  | error cause => exact ⟨rfl, hr⟩
  | ok a => exact h' a s s' z hs hx s' z' hr

theorem inPart [Part τ σ] [Within ε ε'] {Q : τ → τ → Prop} {t : Task τ ε α} (h : Agrees Q t)
    (get : ∀ s z, R s z → Q (Part.get s) (Part.get z))
    (put : ∀ (s z : σ) (p q : τ), R s z → Q p q → R (Part.put p s) (Part.put q z)) :
    Agrees R (liftM t : Task σ ε' α) := fun s z hs =>
  ⟨congrArg (Checked.mapError Within.embed) (h _ _ (get s z hs)).1, put s z _ _ hs (h _ _ (get s z hs)).2⟩

theorem foldlM {xs : List α} {f : β → α → Task σ ε β} (h : ∀ b x, Agrees R (f b x)) (b : β) :
    Agrees R (xs.foldlM f b) := by
  induction xs generalizing b with
  | nil => exact pure b
  | cons x xs ih => exact (h b x).bind fun b' => ih b'

end Task.Agrees

/-! ## Disks that differ in one file -/

namespace Disk

variable {n k : Nat} {d d' : Disk} {path : Path}

/-- Nothing differs but the contents of one file. -/
structure SameAside (n : Nat) (d d' : Disk) : Prop where
  entries : d.entries = d'.entries
  nextNode : d.nextNode = d'.nextNode
  content : ∀ k, k ≠ n → d.content k = d'.content k
  known : n < d.nextNode

/-- And an outage is ahead of both or of none. -/
structure AlikeAside (n : Nat) (d d' : Disk) : Prop extends SameAside n d d' where
  outage : d.outage = d'.outage

namespace SameAside

theorem store (h : SameAside n d d') {c c' : Contents} (hc : k ≠ n → c = c') :
    SameAside n (d.store k c) (d'.store k c') where
  entries := h.entries
  nextNode := h.nextNode
  content q hq := by
    rw [content_store, content_store]
    split
    · next hk => exact hc (hk ▸ hq)
    · exact h.content q hq
  known := h.known

theorem effect (h : SameAside n d d') (call : DiskCall) : SameAside n (d.effect call) (d'.effect call) := by
  cases call with
  | addDirectory place => exact { h with entries := congrArg (·.insert place .directory) h.entries }
  | addFile place =>
    have hadded : SameAside n (d.store d.nextNode .empty) (d'.store d'.nextNode .empty) := by
      rw [← h.nextNode]
      exact h.store fun _ => rfl
    refine { hadded with
      entries := ?_, nextNode := congrArg (· + 1) h.nextNode, known := Nat.lt_succ_of_lt h.known }
    show d.entries.insert place (.file d.nextNode) = d'.entries.insert place (.file d'.nextNode)
    rw [h.entries, h.nextNode]
  | setLength k length => exact h.store fun hk => by rw [h.content k hk]
  | write k offset bytes => exact h.store fun hk => by rw [h.content k hk]
  | remove place => exact { h with entries := congrArg (·.erase place) h.entries }
  | rename source target node =>
    exact { h with entries := congrArg (fun entries => (entries.erase source).insert target (.file node)) h.entries }
  | sync k => exact h

theorem cutEffect (h : SameAside n d d') (bytes : Nat) (call : DiskCall) :
    SameAside n (d.cutEffect bytes call) (d'.cutEffect bytes call) := by
  cases call with
  | write k offset block => exact h.effect (.write k offset (block.extract 0 bytes))
  | _ =>
    simp only [Disk.cutEffect]
    split
    · exact h
    · exact h.effect _

theorem withOutage (h : SameAside n d d') (o o' : Option Outage) :
    SameAside n { d with outage := o } { d' with outage := o' } := { h with }

end SameAside

theorem outage_effect (d : Disk) (call : DiskCall) : (d.effect call).outage = d.outage := by
  cases call <;> rfl

theorem perform_agrees (call : DiskCall) : (perform call).Agrees (AlikeAside n) := by
  intro d d' h
  have heffect := h.toSameAside.effect call
  rw [perform, Task.start_ofStep, Task.start_ofStep, ← h.outage]
  rcases d.outage with _ | ⟨_ | calls, bytes⟩
  · exact ⟨rfl, heffect, by rw [outage_effect, outage_effect, h.outage]⟩
  · exact ⟨rfl, (h.toSameAside.cutEffect bytes call).withOutage _ _, rfl⟩
  · exact ⟨rfl, heffect.withOutage _ _, rfl⟩

/-! ### Calls that do not look into the file -/

theorem resolve_congr (h : d.entries = d'.entries) : d.resolve = d'.resolve := by
  have hfollow : d.follow = d'.follow := by
    funext place part
    rw [follow, follow, entryAt?, entryAt?, h]
  funext path
  rw [resolve, resolve, hfollow]

theorem lookup?_congr (h : d.entries = d'.entries) (path : Path) : d.lookup? path = d'.lookup? path := by
  simp only [lookup?, resolve_congr h, entryAt?, h]

theorem exists?_agrees (path : Path) : (exists? path).Agrees (AlikeAside n) :=
  .state_bind (fun _ _ h => by rw [lookup?_congr h.entries]) fun _ => .pure _

theorem locate_agrees (path : Path) : (locate path).Agrees (AlikeAside n) := by
  refine .state_bind (fun d d' h => ?_) fun d => (Task.Agrees.ofChecked _).bind fun place => .pure _
  simp only [resolve_congr h.entries, entryAt?, h.entries]

theorem locateNew_agrees (path : Path) : (locateNew path).Agrees (AlikeAside n) := by
  refine (locate_agrees path).bind fun (place, entry) => ?_
  cases entry with
  | none => exact .pure _
  | some entry => exact .refuse _

theorem locateFile_agrees (path : Path) : (locateFile path).Agrees (AlikeAside n) := by
  refine (locate_agrees path).bind fun (place, entry) => ?_
  rcases entry with _ | _ | node
  · exact .refuse _
  · exact .refuse _
  · exact .pure _

theorem openFile_agrees (path : Path) : (openFile path).Agrees (AlikeAside n) :=
  (locateFile_agrees path).bind fun _ => .pure _

theorem createFile_agrees (path : Path) : (createFile path).Agrees (AlikeAside n) := by
  refine (locateNew_agrees path).bind fun place => ?_
  refine .state_bind (fun d d' h => by rw [h.nextNode]) fun d => ?_
  exact (perform_agrees _).bind fun _ => .pure _

theorem setLength_agrees (k length : Nat) : (setLength k length).Agrees (AlikeAside n) :=
  .guarded (.refuse _) (perform_agrees _)

theorem writeAt_agrees (k offset : Nat) (bytes : ByteArray) :
    (writeAt k offset bytes).Agrees (AlikeAside n) := .guarded (.refuse _) (perform_agrees _)

theorem sync_agrees (k : Nat) : (sync k).Agrees (AlikeAside n) := perform_agrees _

theorem createOrClear_agrees (path : Path) : (createOrClear path).Agrees (AlikeAside n) := by
  have hopen : (openOrCreate path).Agrees (AlikeAside n) := by
    refine (exists?_agrees path).bind fun known => ?_
    cases known with
    | false => exact createFile_agrees path
    | true => exact openFile_agrees path
  refine (exists?_agrees path).bind fun known => hopen.bind fun node => ?_
  cases known with
  | false => exact .pure _
  | true => exact (setLength_agrees node 0).bind fun _ => .pure _

theorem removeFile_agrees (path : Path) : (removeFile path).Agrees (AlikeAside n) :=
  (locateFile_agrees path).bind fun _ => perform_agrees _

theorem renameFile_agrees (source target : Path) : (renameFile source target).Agrees (AlikeAside n) := by
  refine (locateFile_agrees source).bind fun old => (locate_agrees target).bind fun found => ?_
  exact .guarded (.refuse _) (perform_agrees _)

/-- Reading another file gives the same. -/
theorem readAt_agrees {R : Disk → Disk → Prop} (hR : ∀ d d', R d d' → d.content k = d'.content k)
    (offset length : Nat) : (readAt k offset length).Agrees R := by
  exact .state_bind (fun d d' h => by rw [hR d d' h]) fun d => .guarded (.refuse _) (.pure _)

end Disk

theorem Catalog.save_agrees {n : Nat} (c : Catalog) (directory : Path) :
    (c.save directory).Agrees (Disk.AlikeAside n) :=
  (Disk.createOrClear_agrees _).embed.bind fun node => (Disk.writeAt_agrees node 0 _).embed.bind fun _ =>
    (Disk.sync_agrees node).embed.bind fun _ => (Disk.renameFile_agrees _ _).embed

namespace PagedFile

variable {n : Nat} {file : PagedFile}

theorem create_agrees (path : Path) (size : Nat) : (create path size).Agrees (Disk.AlikeAside n) := by
  refine (Disk.exists?_agrees path).embed.bind fun known => ?_
  cases known with
  | false => exact (Disk.createFile_agrees path).embed.bind fun _ => .pure _
  | true => exact .refuse _

theorem readPage_agrees {R : Disk → Disk → Prop} (hR : ∀ d d', R d d' → d.content file.node = d'.content file.node)
    (index : PageIndex) (size : Nat) : (file.readPage index size).Agrees R := by
  refine .guarded (.refuse _) (.guarded (.refuse _) ?_)
  exact (Disk.readAt_agrees hR _ _).embed.bind fun _ => .pure _

theorem writePage_agrees (file : PagedFile) (index : PageIndex) (page : Page) :
    (file.writePage index page).Agrees (Disk.AlikeAside n) := by
  refine .guarded (.refuse _) ?_
  split
  · exact (Disk.writeAt_agrees _ _ _).embed.bind fun _ => .pure _
  refine (Task.Agrees.ofChecked _).bind fun _ => ?_
  exact (Disk.setLength_agrees _ _).embed.bind fun _ => (Disk.writeAt_agrees _ _ _).embed.bind fun _ => .pure _

end PagedFile

/-! ## Volumes beside a file that is not theirs -/

namespace Mounted

variable {n : Nat} {m m' z : Mounted} {id : FileId} {i : PageIndex}

/-- The volume has the file of a node on its disk, and none of its own files is that one. -/
structure Apart (n : Nat) (m : Mounted) : Prop where
  known : n < m.disk.nextNode
  apart : ∀ (id : FileId) f, m.volume.files[id]? = some f → f.file.node ≠ n

/-- One volume, on disks that differ in one file that is not its own. -/
structure SameAside (n : Nat) (m m' : Mounted) : Prop where
  disk : m.disk.SameAside n m'.disk
  volume : m.volume = m'.volume
  apart : ∀ (id : FileId) f, m.volume.files[id]? = some f → f.file.node ≠ n

structure AlikeAside (n : Nat) (m m' : Mounted) : Prop extends SameAside n m m' where
  outage : m.disk.outage = m'.disk.outage

theorem Apart.alike (h : m.Apart n) : m.AlikeAside n m :=
  ⟨⟨⟨rfl, rfl, fun _ _ => rfl, h.known⟩, rfl, h.apart⟩, rfl⟩

theorem SameAside.right (h : m.SameAside n m') : m'.Apart n :=
  ⟨h.disk.nextNode ▸ h.disk.known, h.volume ▸ h.apart⟩

theorem onDisk_agrees {α ε : Type} [Within ε StorageError] {t : Task Disk ε α}
    (h : t.Agrees (Disk.AlikeAside n)) : (liftM t : Task Mounted StorageError α).Agrees (AlikeAside n) :=
  h.inPart (fun _ _ h => ⟨h.disk, h.outage⟩)
    fun _ _ _ _ h hd => ⟨⟨hd.toSameAside, h.volume, h.apart⟩, hd.outage⟩

theorem save_agrees (c : Catalog) (directory : Path) :
    (liftM (c.save directory) : Task Mounted StorageError Unit).Agrees (AlikeAside n) :=
  (Catalog.save_agrees c directory).onPart (fun _ _ h => ⟨h.disk, h.outage⟩)
    fun _ _ _ _ h hd => ⟨⟨hd.toSameAside, h.volume, h.apart⟩, hd.outage⟩

theorem updateVolume_agrees {f : Volume → Volume}
    (h : ∀ v : Volume, (∀ (id : FileId) g, v.files[id]? = some g → g.file.node ≠ n) →
      ∀ (id : FileId) g, (f v).files[id]? = some g → g.file.node ≠ n) :
    (updateVolume f).Agrees (AlikeAside n) :=
  .change fun _ _ hm => ⟨⟨hm.disk, congrArg f hm.volume, h _ hm.apart⟩, hm.outage⟩

theorem withFile_agrees {g : OpenFile} (hg : g.file.node ≠ n) :
    (updateVolume (·.withFile id g)).Agrees (AlikeAside n) := by
  refine updateVolume_agrees fun v h id' g' hg' => ?_
  rw [Volume.withFile, lookup_insert] at hg'
  split at hg'
  · cases hg'
    exact hg
  · exact h id' g' hg'

theorem recatalog_agrees (f : Catalog → Catalog) : (recatalog f).Agrees (AlikeAside n) := by
  have hvolume : (updateVolume fun v => { v with catalog := f v.catalog }).Agrees (AlikeAside n) :=
    updateVolume_agrees fun _ h => h
  refine hvolume.bind fun _ => .state_bind (fun m m' h => ?_) fun m => save_agrees m.volume.catalog m.volume.directory
  rw [h.volume]

theorem openFile_agrees (id : FileId) : (openFile id).Agrees (AlikeAside n) := by
  refine .state_bind (fun _ _ h => by rw [h.volume]) fun m => ?_
  cases m.volume.files[id]? with
  | none => exact .refuse _
  | some f => exact .pure _

/-- A new file is none that the disk has already. -/
theorem register_agrees (path : Path) (size : Nat) (id : FileId) (name : String) :
    (register path size id name).Agrees (AlikeAside n) := by
  refine (onDisk_agrees (PagedFile.create_agrees path size)).bind_gives fun file s s' z hs hfile => ?_
  obtain ⟨d, hd, -⟩ := Task.inPart_gives hfile
  have hnode : file.node ≠ n := by
    rw [(PagedFile.create_gives hd).1]
    exact Nat.ne_of_gt hs.disk.known
  exact .guarded (.refuse _) ((recatalog_agrees _).bind fun _ => withFile_agrees hnode)

theorem createWithId_agrees (id : FileId) (name : String) : (createWithId id name).Agrees (AlikeAside n) := by
  rw [createWithId_eq]
  refine .state_bind (fun _ _ h => by rw [h.volume]) fun m => .guarded (.refuse _) ?_
  refine (onDisk_agrees (Disk.exists?_agrees _)).bind fun known => ?_
  exact .guarded (onDisk_agrees (Disk.removeFile_agrees _)) (register_agrees _ _ id name)

theorem delete_agrees (id : FileId) : (delete id).Agrees (AlikeAside n) := by
  refine (openFile_agrees id).bind fun f => (updateVolume_agrees fun v h id' g hg => ?_).bind fun _ => ?_
  · rw [lookup_erase] at hg
    split at hg
    · cases hg
    · exact h id' g hg
  have hremove := onDisk_agrees (n := n) (Disk.removeFile_agrees f.file.path)
  refine .state_bind (fun _ _ h => by rw [h.volume]) fun m => ?_
  dsimp only
  split
  · exact (recatalog_agrees _).bind fun _ => hremove
  · exact hremove

theorem loadUnverified_agrees (id : FileId) (i : PageIndex) : (loadUnverified id i).Agrees (AlikeAside n) := by
  refine (openFile_agrees id).bind_gives fun f s s' z hs hf => ?_
  have hnode := hs.apart id f (opened_of_openFile hf).1
  refine .state_bind (fun _ _ h => by rw [h.volume]) fun m => ?_
  dsimp only
  split
  · exact onDisk_agrees (PagedFile.readPage_agrees (fun d d' h => h.content _ hnode) _ _)
  · exact .pure _

theorem installPage_agrees (id : FileId) (i : PageIndex) (page : Page) :
    (installPage id i page).Agrees (AlikeAside n) := by
  refine (openFile_agrees id).bind_gives fun f s s' z hs hf => ?_
  have hnode := hs.apart id f (opened_of_openFile hf).1
  refine (Task.Agrees.ofChecked _).bind fun stored => ?_
  refine (onDisk_agrees (PagedFile.writePage_agrees f.file i stored)).bind_gives fun file s s' z hs hfile => ?_
  obtain ⟨d, hd, -⟩ := Task.inPart_gives hfile
  refine withFile_agrees ?_
  have hsame : file.node = f.file.node := by
    rw [(PagedFile.writePage_gives hd).2.1]
    split <;> rfl
  exact hsame ▸ hnode

theorem sync_agrees (id : FileId) : (sync id).Agrees (AlikeAside n) :=
  (openFile_agrees id).bind fun f => onDisk_agrees (Disk.sync_agrees f.file.node).embed

theorem syncAll_agrees : syncAll.Agrees (AlikeAside n) :=
  .state_bind (fun _ _ h => by rw [h.volume]) fun _ => .forM sync_agrees

/-! ### What is asked of a volume -/

/-- The same names, ids, page counts and pages. -/
structure ShowsSame (m m' : Mounted) : Prop where
  idOf? : ∀ name, m.volume.idOf? name = m'.volume.idOf? name
  fileName : ∀ id, ((fileName id).start m).1 = ((fileName id).start m').1
  pageCount : ∀ id, ((pageCount id).start m).1 = ((pageCount id).start m').1
  loadPage : ∀ id i, ((loadPage id i).start m).1 = ((loadPage id i).start m').1

/-- What is read off an open file is the same for one volume on any two disks. -/
theorem openFile_congr {α : Type} (h : m.volume = m'.volume) (id : FileId) (f : OpenFile → α) :
    ((do return f (← openFile id) : Task Mounted StorageError α).start m).1 =
      ((do return f (← openFile id) : Task Mounted StorageError α).start m').1 := by
  simp only [openFile, Task.start_bind, Task.start_state, h]
  cases m'.volume.files[id]? <;> rfl

namespace SameAside

/-- A file that is not the volume's makes no difference to what it shows. -/
theorem showsSame (h : m.SameAside n m') : m.ShowsSame m' where
  idOf? name := by rw [h.volume]
  fileName id := openFile_congr h.volume id OpenFile.name
  pageCount id := openFile_congr h.volume id fun f => f.file.pageCount
  loadPage id i := by
    rw [loadPage_start_eq, loadPage_start_eq, ← h.volume]
    cases hf : m.volume.files[id]? with
    | none => rfl
    | some f =>
      have hread : f.fetched m.disk m.volume.pageSize id i = f.fetched m'.disk m.volume.pageSize id i := by
        have hcontent := h.disk.content f.file.node (h.apart id f hf)
        have hagrees : (f.file.readPage i m.volume.pageSize).Agrees
            fun d d' => d.content f.file.node = d'.content f.file.node :=
          PagedFile.readPage_agrees (fun _ _ h => h) _ _
        rw [OpenFile.fetched, OpenFile.fetched, (hagrees _ _ hcontent).1]
      dsimp only
      rw [hread]
      cases f.resident[i]? with
      | some p => rfl
      | none => cases f.fetched m'.disk m.volume.pageSize id i <;> rfl

end SameAside

end Mounted

end RefStore
