import RefStore.Proofs.LogCodec
import RefStore.Proofs.MirrorPages
import RefStore.Proofs.Progress

/-!
# Commits on a disk that may fail

Deletions, new files and pages are carried out one by one; wherever the disk fails, the operation is under
way on it. Main statement: `Engine.commit_crash`, what stands on the disk after a commit that is cut off:
if the log was cut short, the files are those before the operation.
-/

namespace RefStore

/-- New files have names of data files, and the pages have room in a file of a disk. -/
structure Operation.Fits (dir : Path) (size : Nat) (op : Operation) : Prop where
  named : ∀ {id name}, (id, name) ∈ op.created → Volume.DataName name ∧ dir.Fits name
  room : ∀ {id i d}, (id, i, d) ∈ op.changes → (i.toNat + 1) * size ≤ Disk.longestFile

/-- A disk on which an operation is under way. -/
def Disk.Amid (dir : Path) (place : Location) (size : Nat) (s : Stock) (op : Operation) (log : List UInt8)
    (d : Disk) : Prop :=
  ∃ t, d.Stocks dir place size t ∧ t.log = log ∧ op.Underway size s [] [] [] t

/-- The disk with some bytes as a log that was empty. -/
def Disk.logged (d : Disk) (n : Nat) (bytes : List UInt8) : Disk :=
  d.store n ((d.content n).overwrite 0 (Block.ofList bytes))

theorem Disk.toList_logged {d : Disk} {n : Nat} (h : (d.content n).toList = []) (bytes : List UInt8) :
    ((d.logged n bytes).content n).toList = bytes := by
  rw [logged, content_store, if_pos rfl, Contents.toList_overwrite_of_le _ _ (Nat.zero_le _), h]
  simp

theorem Disk.Stocks.store_log {d : Disk} {dir : Path} {place : Location} {size : Nat} {s : Stock}
    (h : d.Stocks dir place size s) (c : Contents) :
    (d.store s.logNode c).Stocks dir place size (s.withLog c.toList) where
  houses := h.houses.store _ c
  catalog := by
    rw [Disk.bytes?_store h.houses h.logNode, if_neg (by decide)]
    exact h.catalog
  file {id name} hid := by
    obtain ⟨n, hp⟩ := h.file hid
    refine ⟨n, hp.node, ?_, hp.sizes⟩
    rw [Disk.bytes?_store h.houses h.logNode, if_neg (h.sane.named hid).1.ne_log]
    exact hp.bytes
  logNode := h.logNode
  log := by
    rw [Disk.bytes?_store h.houses h.logNode, if_pos rfl]
    rfl
  sane := ⟨h.sane.named, h.sane.inj, h.sane.valid, h.sane.bounded⟩

theorem Disk.Stocks.content_log {d : Disk} {dir : Path} {place : Location} {size : Nat} {s : Stock}
    (h : d.Stocks dir place size s) : (d.content s.logNode).toList = s.log := by
  have hlog := h.log
  rw [Disk.bytes?, h.logNode] at hlog
  exact Option.some.inj hlog

/-- All of an operation is done. -/
def Operation.Complete (size : Nat) (s : Stock) (op : Operation) (t : Stock) : Prop :=
  op.Underway size s op.deleted.toList op.created op.changes t

namespace Mounted.Mirrors

variable {m : Mounted} {dir : Path} {place : Location} {size : Nat} {s t : Stock} {op : Operation}
  {gone : List FileId} {made : List (FileId × String)} {done rest : List (FileId × PageIndex × Draft)}
  {id : FileId} {name : String} {i : PageIndex} {d : Draft} {page : Page} {cut : Disk → Prop}

theorem delete_underway (h : m.Mirrors dir place size t) (hop : op.Over size s)
    (hu : op.Underway size s gone made done t) (hm : ∀ e ∈ made, e ∈ op.created)
    (hcut : ∀ d, d.Amid dir place size s op t.log → cut d) (hid : id ∈ op.deleted)
    (hname : t.names id = some name) : ∃ m', (Mounted.delete id).Survives m cut () m' ∧
      m'.Mirrors dir place size (t.without id) ∧
      op.Underway size s (gone ++ [id]) made done (t.without id) := by
  have hu' := hu.without hop hm hid
  obtain ⟨m', hs, hm'⟩ := h.delete_survives hname (fun d hd => hcut d ⟨t, hd, rfl, hu.forget⟩)
    (fun d hd => hcut d ⟨_, hd, rfl, hu'.forget⟩)
  exact ⟨m', hs, hm', hu'⟩

theorem create_underway (h : m.Mirrors dir place size t) (hop : op.Over size s) (hs : 8 ≤ size)
    (hfits : op.Fits dir size) (hu : op.Underway size s gone made [] t)
    (hg : ∀ f, f ∈ gone ↔ f ∈ op.deleted) (hcut : ∀ d, d.Amid dir place size s op t.log → cut d)
    (he : (id, name) ∈ op.created) (hid : t.names id = none) :
    ∃ m', (createWithId id name).Survives m cut () m' ∧ m'.Mirrors dir place size (t.withFile id name) ∧
      op.Underway size s gone (made ++ [(id, name)]) [] (t.withFile id name) := by
  have hu' := hu.withFile hop hs (fun f hf => (hg f).mp hf) he hid
  obtain ⟨hdata, hdir⟩ := hfits.named he
  obtain ⟨m', hs, hm'⟩ := h.createWithId_survives (hop.valid _ he) hdata hdir
    (hu.free hop (fun f hf => (hg f).mpr hf) he hid) (fun d hd => hcut d ⟨t, hd, rfl, hu.forget⟩)
    (fun d hd => hcut d ⟨_, hd, rfl, hu'.forget⟩)
  exact ⟨m', hs, hm', hu'⟩

/-- Any page will do that has the same seal. -/
theorem install_underway (h : m.Mirrors dir place size t) (hop : op.Over size s) (hs : 8 ≤ size)
    (hfits : op.Fits dir size) (hu : op.Underway size s gone made done t)
    (hcut : ∀ d, d.Amid dir place size s op t.log → cut d)
    (hall : op.changes = done ++ (id, i, d) :: rest) (hid : t.names id ≠ none) (hp : page.size = size)
    (hseal : page.withSeal = d.overlay.page.withSeal) :
    ∃ m' t', (installPage id i page).Survives m cut () m' ∧ m'.Mirrors dir place size t' ∧
      t'.log = t.log ∧ t'.names = t.names ∧ op.Underway size s gone made (done ++ [(id, i, d)]) t' := by
  have hx : (id, i, d) ∈ op.changes := hall ▸ List.mem_append_right _ List.mem_cons_self
  obtain ⟨name, hsees⟩ := hop.sees_of_change hx
  have hname := hu.names_of_sees hop hsees hid
  obtain ⟨pages, hd⟩ := hop.drafts hsees
  have hlen := h.stocks.sane.length_lt hname (by omega)
  have hi := (hu.pages id name hsees hname).le_length hd hall hlen
  obtain ⟨m', hsurvives, hm'⟩ := h.installPage_survives hname hi hp hs (hfits.room hx)
    (fun d hd => hcut d ⟨t, hd, rfl, hu.forget⟩) (fun d k hd => hcut d ⟨_, hd, rfl, by
      rw [hseal]
      exact (hu.torn hop hs hall hlen k).forget⟩)
  rw [hseal] at hm'
  exact ⟨m', _, hsurvives, hm', rfl, rfl, hu.install hop hs hall hlen⟩

end Mounted.Mirrors

theorem Operation.nodup_deleted (op : Operation) : op.deleted.toList.Nodup :=
  (Std.TreeSet.distinct_toList (t := op.deleted)).imp fun hne heq => hne (by simp [heq])

namespace Engine

open Mounted

variable {e e' : Engine} {m : Mounted} {dir : Path} {place : Location} {size : Nat} {s t : Stock}
  {op : Operation} {log : List UInt8} {cut : Disk → Prop}

theorem deletes_survive (h : m.Mirrors dir place size t) (hop : op.Over size s)
    (hu : op.Underway size s [] [] [] t) (hnames : ∀ f, t.names f = s.names f)
    (hcut : ∀ d, d.Amid dir place size s op t.log → cut d) :
    ∃ m' t', (op.deleted.toList.forM Mounted.delete).Survives m cut () m' ∧ m'.Mirrors dir place size t' ∧
      t'.log = t.log ∧ (∀ f ∉ op.deleted, t'.names f = s.names f) ∧
      op.Underway size s op.deleted.toList [] [] t' := by
  obtain ⟨m', hs, t', hm', hlog, hn, hu'⟩ :
      ∃ m', (op.deleted.toList.forM Mounted.delete).Survives m cut () m' ∧
        ∃ t', m'.Mirrors dir place size t' ∧ t'.log = t.log ∧
          (∀ f ∉ op.deleted.toList, t'.names f = s.names f) ∧
          op.Underway size s op.deleted.toList [] [] t' := by
    refine Task.Survives.forM (P := fun gone (m : Mounted) => ∃ t', m.Mirrors dir place size t' ∧ t'.log = t.log ∧
      (∀ f ∉ gone, t'.names f = s.names f) ∧ op.Underway size s gone [] [] t') ?_
      ⟨t, h, rfl, fun f _ => hnames f, hu⟩
    rintro gone id rest m hall ⟨t', hm, hlog, hn, hu⟩
    have hid : id ∈ op.deleted := by
      rw [← Std.TreeSet.mem_toList, hall]
      simp
    have hnew : id ∉ gone := by
      have hnodup := hall ▸ op.nodup_deleted
      exact fun hmem => (List.nodup_append.mp hnodup).2.2 id hmem id List.mem_cons_self rfl
    obtain ⟨name, hname⟩ := Option.ne_none_iff_exists'.mp (hop.deleted id hid)
    obtain ⟨m', hs, hm', hu'⟩ := hm.delete_underway hop hu (by simp) (hlog ▸ hcut) hid
      ((hn id hnew).trans hname)
    refine ⟨m', hs, t'.without id, hm', hlog, fun f hf => ?_, hu'⟩
    obtain ⟨hf, hne⟩ : f ∉ gone ∧ f ≠ id := by simpa using hf
    exact (if_neg hne).trans (hn f hf)
  exact ⟨m', t', hs, hm', hlog, fun f hf => hn f (by simpa using hf), hu'⟩

theorem creates_survive (h : m.Mirrors dir place size t) (hop : op.Over size s) (hs : 8 ≤ size)
    (hfits : op.Fits dir size) (hu : op.Underway size s op.deleted.toList [] [] t)
    (hnames : ∀ f ∉ op.deleted, t.names f = s.names f)
    (hcut : ∀ d, d.Amid dir place size s op t.log → cut d) :
    ∃ m', (op.created.forM fun (file, name) => createWithId file name).Survives m cut () m' ∧
      ∃ t', m'.Mirrors dir place size t' ∧ t'.log = t.log ∧
        (∀ e ∈ op.created, e.1 ∉ op.created.map Prod.fst → t'.names e.1 = none) ∧
        op.Underway size s op.deleted.toList op.created [] t' := by
  refine Task.Survives.forM (P := fun made (m : Mounted) => ∃ t', m.Mirrors dir place size t' ∧ t'.log = t.log ∧
    (∀ e ∈ op.created, e.1 ∉ made.map Prod.fst → t'.names e.1 = none) ∧
    op.Underway size s op.deleted.toList made [] t') ?_
    ⟨t, h, rfl, fun e he _ => (hnames e.1 (hop.not_deleted he)).trans (hop.fresh e he), hu⟩
  rintro made e rest m hall ⟨t', hm, hlog, hn, hu⟩
  have he : e ∈ op.created := hall ▸ List.mem_append_right _ List.mem_cons_self
  have hnew : e.1 ∉ made.map Prod.fst := by
    have hids := hop.ids
    rw [hall, List.map_append, List.map_cons] at hids
    exact fun hmem => (List.nodup_append.mp hids).2.2 _ hmem _ List.mem_cons_self rfl
  obtain ⟨m', hs, hm', hu'⟩ := hm.create_underway hop hs hfits hu (by simp) (hlog ▸ hcut) he
    (hn e he hnew)
  refine ⟨m', hs, _, hm', hlog, fun e' he' hne => ?_, hu'⟩
  obtain ⟨hne, hid⟩ : e'.1 ∉ made.map Prod.fst ∧ e'.1 ≠ e.1 := by simpa [not_or] using hne
  exact (if_neg hid).trans (hn e' he' hne)

theorem installs_survive (h : m.Mirrors dir place size t) (hop : op.Over size s) (hs : 8 ≤ size)
    (hfits : op.Fits dir size) (hu : op.Underway size s op.deleted.toList op.created [] t)
    (hcut : ∀ d, d.Amid dir place size s op t.log → cut d) :
    ∃ m', (op.changes.forM fun (file, index, d) => installPage file index d.overlay.page).Survives m
        cut () m' ∧ ∃ t', m'.Mirrors dir place size t' ∧ t'.log = t.log ∧
      op.Underway size s op.deleted.toList op.created op.changes t' := by
  refine Task.Survives.forM (P := fun done (m : Mounted) => ∃ t', m.Mirrors dir place size t' ∧ t'.log = t.log ∧
    op.Underway size s op.deleted.toList op.created done t') ?_ ⟨t, h, rfl, hu⟩
  rintro done ⟨id, i, d⟩ rest m hall ⟨t', hm, hlog, hu⟩
  have hx : (id, i, d) ∈ op.changes := hall ▸ List.mem_append_right _ List.mem_cons_self
  obtain ⟨name, hsees⟩ := hop.sees_of_change hx
  obtain ⟨ht, hsize⟩ := hop.tidy_of_change hx
  have hname := (hu.names_iff hop (by simp) (by simp)).mpr hsees
  obtain ⟨m', t'', hs, hm', hlog', -, hu'⟩ := hm.install_underway hop hs hfits hu (hlog ▸ hcut) hall
    (by simp [hname]) ((Overlay.size_page ht).trans hsize) rfl
  exact ⟨m', hs, t'', hm', hlog'.trans hlog, hu'⟩

/-- The whole operation is carried out, or it is under way on the disk. -/
theorem install_survives (h : m.Mirrors dir place size t) (hop : op.Over size s) (hs : 8 ≤ size)
    (hfits : op.Fits dir size) (hu : op.Underway size s [] [] [] t) (hnames : ∀ f, t.names f = s.names f)
    (hkeys : ∀ f ∈ op.drafts, ∃ i d, op.draft? f i = some d)
    (hcut : ∀ d, d.Amid dir place size s op t.log → cut d) (syncs : Bool) :
    ∃ m' t', (install op syncs).Survives m cut () m' ∧ m'.Mirrors dir place size t' ∧ t'.log = t.log ∧
      op.Complete size s t' := by
  obtain ⟨m₁, t₁, hs₁, hm₁, hlog₁, hnames₁, hu₁⟩ := deletes_survive h hop hu hnames hcut
  obtain ⟨m₂, hs₂, t₂, hm₂, hlog₂, -, hu₂⟩ := creates_survive hm₁ hop hs hfits hu₁ hnames₁ (hlog₁ ▸ hcut)
  replace hlog₂ := hlog₂.trans hlog₁
  obtain ⟨m₃, hs₃, t₃, hm₃, hlog₃, hu₃⟩ := installs_survive hm₂ hop hs hfits hu₂ (hlog₂ ▸ hcut)
  replace hlog₃ := hlog₃.trans hlog₂
  refine ⟨m₃, t₃, .bind hs₁ (.bind hs₂ (.bind hs₃ ?_)), hm₃, hlog₃, hu₃⟩
  have hnamed {f : FileId} (hf : f ∈ op.touched) : t₃.names f ≠ none := by
    have hmem : f ∈ op.drafts.keys ++ op.created.map Prod.fst := by
      simpa [Operation.touched] using hf
    obtain ⟨name, hsees⟩ : ∃ name, op.Sees s f name := by
      rcases List.mem_append.mp hmem with hmem | hmem
      · obtain ⟨i, d, hd⟩ := hkeys f (by simpa using hmem)
        exact hop.sees_of_draft hd
      · obtain ⟨⟨f, x⟩, he, rfl⟩ := List.mem_map.mp hmem
        exact ⟨x, .inl he⟩
    rw [(hu₃.names_iff hop (by simp) (by simp)).mpr hsees]
    simp
  cases syncs with
  | false => exact .pure () m₃
  | true => exact hm₃.syncs_survive (fun f hf => hnamed hf) fun d hd => hcut d ⟨t₃, hd, hlog₃, hu₃.forget⟩

end Engine

/-! ## The log -/

/-- The records of an operation as they stand in the log. -/
def Operation.logBytes (op : Operation) : List UInt8 := op.records.flatMap LogRecord.encode

/-- A disk on which an operation is done in the end: it is in the log, or it is done already. -/
def Disk.Redoes (dir : Path) (place : Location) (size : Nat) (s : Stock) (op : Operation) (d : Disk) : Prop :=
  d.Amid dir place size s op op.logBytes ∨
    ∃ t, d.Stocks dir place size t ∧ t.log = [] ∧ op.Complete size s t

/-- A disk on which an operation is as if it never was: the log was cut short. -/
def Disk.Drops (dir : Path) (place : Location) (size : Nat) (s : Stock) (op : Operation) (d : Disk) : Prop :=
  ∃ k < op.logBytes.length, d.Stocks dir place size (s.withLog (op.logBytes.take k))

/-- Whether all of so many bytes are written if the next call writes them. -/
def LetsThrough (o : Option Outage) (length : Nat) : Prop := ∀ k, o = some ⟨0, k⟩ → length ≤ k

namespace Log

variable {log : Log} {d : Disk} {records : List LogRecord}

/-- On a disk that has failed the log cannot be cut back. -/
theorem truncateTo_dead (h : d.outage = some ⟨0, 0⟩) {k : Nat} (hk : k ≤ Disk.longestFile) :
    (log.truncateTo k).start d = (refuse (.io ⟨"device failure"⟩), d) := by
  have hsame : { d with outage := some ⟨0, 0⟩ } = d := by rw [← h]
  have hcut : (Disk.setLength log.node k).start d = (refuse ⟨"device failure"⟩, d) := by
    rw [Disk.setLength, if_neg (Nat.not_lt.mpr hk), Disk.perform, Task.start_ofStep, h]
    exact congrArg (Prod.mk _) hsame
  have hlift : (liftM (Disk.setLength log.node k) : Task Disk LogError Unit).start d =
      (refuse (.io ⟨"device failure"⟩), d) := by
    show ((Disk.setLength log.node k).mapError Within.embed).start d = _
    rw [Task.start_mapError, hcut]
    rfl
  rw [truncateTo, Task.start_bind, hlift]
  rfl

theorem append_eq (hempty : (d.content log.node).toList = [])
    (hlen : (records.flatMap LogRecord.encode).length ≤ Disk.longestFile) (o : Option Outage) :
    (log.append records).start (withOutage o d) =
      ((Disk.perform (.write log.node 0 (Block.ofList (records.flatMap LogRecord.encode)))).mapError
        (Within.embed : IoError → LogError)).start (withOutage o d) := by
  have hend : log.endOffset.Gives (withOutage o d) 0 (withOutage o d) := by
    have hsize : (d.content log.node).size = 0 := by rw [← Contents.length_toList, hempty]; rfl
    exact (Task.Gives.embed (.bind (.state _) (hsize ▸ .pure _ _)))
  rw [append, hend.start_bind, Disk.writeAt, if_neg]
  · rfl
  · simpa using hlen

theorem endOffset_gives (hempty : (d.content log.node).toList = []) : log.endOffset.Gives d 0 d := by
  have hsize : (d.content log.node).size = 0 := by rw [← Contents.length_toList, hempty]; rfl
  exact Task.Gives.embed (.bind (.state _) (hsize ▸ .pure _ _))

theorem append_cut (hempty : (d.content log.node).toList = [])
    (hlen : (records.flatMap LogRecord.encode).length ≤ Disk.longestFile) (k : Nat) :
    (log.append records).start (withOutage (some ⟨0, k⟩) d) = (refuse (.io ⟨"device failure"⟩),
      withOutage (some ⟨0, 0⟩) (d.logged log.node ((records.flatMap LogRecord.encode).take k))) := by
  rw [append_eq hempty hlen, Task.start_mapError, Disk.perform_cut]
  have hblock : (Block.ofList (records.flatMap LogRecord.encode)).extract 0 k =
      Block.ofList ((records.flatMap LogRecord.encode).take k) := Block.toList_injective (by simp)
  rw [Disk.cutEffect, hblock]
  rfl

theorem append_passed (hempty : (d.content log.node).toList = [])
    (hlen : (records.flatMap LogRecord.encode).length ≤ Disk.longestFile) {o : Option Outage}
    (ho : ∀ k, o ≠ some ⟨0, k⟩) : ∃ o', (o = none → o' = none) ∧
      (log.append records).start (withOutage o d) =
        (.ok (), withOutage o' (d.logged log.node (records.flatMap LogRecord.encode))) := by
  obtain ⟨o', hnone, hp⟩ : ∃ o', (o = none → o' = none) ∧
      (Disk.perform (.write log.node 0 (Block.ofList (records.flatMap LogRecord.encode)))).start
        (withOutage o d) = (.ok (), withOutage o' _) := Disk.perform_passed ho
  refine ⟨o', hnone, ?_⟩
  rw [append_eq hempty hlen, Task.start_mapError, hp]
  rfl

theorem sync_survives {cut : Disk → Prop} (hcut : cut d.restart) : log.sync.Survives d cut () d := by
  rw [sync]
  split
  · exact (Disk.sync_survives hcut _).embed
  · exact .pure () d

theorem truncate_survives {cut : Disk → Prop} (hcut : cut d.restart)
    (hcut' : cut (d.store log.node ((d.content log.node).resize 0)).restart) :
    log.truncate.Survives d cut () (d.store log.node ((d.content log.node).resize 0)) :=
  .bind (Disk.setLength_survives (Nat.zero_le _) hcut hcut').embed (sync_survives hcut')

end Log

namespace Mounted.Mirrors

variable {m : Mounted} {dir : Path} {place : Location} {size : Nat} {t : Stock} {cut : Disk → Prop}

theorem store_log (h : m.Mirrors dir place size t) (c : Contents) :
    Mirrors dir place size (t.withLog c.toList) ⟨m.disk.store t.logNode c, m.volume⟩ where
  stocks := h.stocks.store_log c
  directory := h.directory
  pageSize := h.pageSize
  catalog := h.catalog
  file := h.file
  noFile := h.noFile

theorem truncate_survives (h : m.Mirrors dir place size t) {log : Log} (hnode : log.node = t.logNode)
    (hcut : ∀ d, d.Stocks dir place size t → cut d)
    (hcut' : ∀ d, d.Stocks dir place size (t.withLog []) → cut d) :
    ∃ m', (liftM log.truncate : Task Mounted StorageError Unit).Survives m cut () m' ∧
      m'.Mirrors dir place size (t.withLog []) := by
  have hempty : ((m.disk.content t.logNode).resize 0).toList = [] := by simp [Contents.toList_resize]
  have hm := h.store_log ((m.disk.content t.logNode).resize 0)
  rw [hempty, ← hnode] at hm
  exact ⟨_, (Log.truncate_survives (hcut _ h.stocks.restart) (hcut' _ hm.stocks.restart)).inPart, hm⟩

end Mounted.Mirrors

namespace Engine

open Mounted

variable {e z : Engine} {dir : Path} {place : Location} {size : Nat} {s t : Stock} {op : Operation}
  {cut : Disk → Prop} {o : Option Outage}

/-- An engine between operations. Its volume mirrors the files on its disk, and its log is empty. -/
structure Rests (dir : Path) (place : Location) (size : Nat) (s : Stock) (e : Engine) : Prop where
  mirrors : e.mounted.Mirrors dir place size s
  node : e.journal.log.node = s.logNode
  empty : s.log = []
  live : e.mounted.disk.outage = none

theorem start_onDisk {ε α : Type} [Within ε StorageError] (t : Task Disk ε α) (e : Engine) :
    (liftM t : Task Engine StorageError α).start e =
      ((t.start e.mounted.disk).1.mapError Within.embed,
        OnDisk.withDisk (t.start e.mounted.disk).2 e) := rfl

/-- The records of an operation go to a log and are forced out. -/
def writeLog (log : Log) (op : Operation) : Task Engine StorageError Unit := do
  log.append op.records
  log.sync

theorem record_gives (hempty : (e.mounted.disk.content e.journal.log.node).toList = [])
    (hw : (writeLog e.journal.log op).Gives e () z) : (record op).Gives e () z := by
  have hend : (liftM e.journal.log.endOffset : Task Engine StorageError Nat).Gives e 0 e :=
    ((Log.endOffset_gives hempty).inPart (s := e.mounted)).onPart
  exact (Task.Gives.state e).bind (hend.bind (hw.attempt.bind (.pure _ _)))

/-- A log that could not be written on a disk that has failed stays as it is. -/
theorem record_failed {cause : StorageError}
    (hempty : (e.mounted.disk.content e.journal.log.node).toList = [])
    (hw : (writeLog e.journal.log op).start e = (.error (.error cause), z))
    (hz : z.mounted.disk.outage = some ⟨0, 0⟩) :
    ∃ z', (record op).start e = (.error (.error cause), z') ∧ z'.mounted = z.mounted := by
  have hend : (liftM e.journal.log.endOffset : Task Engine StorageError Nat).Gives e 0 e :=
    ((Log.endOffset_gives hempty).inPart (s := e.mounted)).onPart
  have hcut : (liftM (e.journal.log.truncateTo 0) : Task Engine StorageError Unit).start z =
      (refuse (.log (.io ⟨"device failure"⟩)), z) := by
    rw [start_onDisk, Log.truncateTo_dead hz (Nat.zero_le _)]
    rfl
  rw [record, (Task.Gives.state e).start_bind, hend.start_bind]
  dsimp only
  rw [← writeLog, Task.start_bind, Task.attempt, Task.start_ofStep, hw]
  dsimp only
  rw [Task.start_bind, Task.attempt, Task.start_ofStep, hcut]
  exact ⟨_, rfl, rfl⟩

/-- The engine with bytes in its log, which was empty. -/
def logged (e : Engine) (bytes : List UInt8) : Engine :=
  OnDisk.withDisk (e.mounted.disk.logged e.journal.log.node bytes) e

namespace Rests

theorem content_log (h : e.Rests dir place size s) :
    (e.mounted.disk.content e.journal.log.node).toList = [] := by
  rw [h.node, h.mirrors.stocks.content_log, h.empty]

theorem logged (h : e.Rests dir place size s) (bytes : List UInt8) :
    (e.logged bytes).mounted.Mirrors dir place size (s.withLog bytes) := by
  have hbytes := Disk.toList_logged h.content_log bytes
  have hm := h.mirrors.store_log
    ((e.mounted.disk.content e.journal.log.node).overwrite 0 (Block.ofList bytes))
  rw [Disk.logged, Disk.content_store, if_pos rfl] at hbytes
  rw [hbytes, ← h.node] at hm
  exact hm

theorem record_cut (h : e.Rests dir place size s) (hlen : op.logBytes.length ≤ Disk.longestFile)
    (k : Nat) : ∃ cause z, (record op).start (withOutage (some ⟨0, k⟩) e) = (.error (.error cause), z) ∧
      z.mounted.disk.restart = (e.logged (op.logBytes.take k)).mounted.disk.restart := by
  have happend := Log.append_cut h.content_log hlen k
  have hw : (writeLog e.journal.log op).start (withOutage (some ⟨0, k⟩) e) =
      (refuse (.log (.io ⟨"device failure"⟩)), withOutage (some ⟨0, 0⟩) (e.logged (op.logBytes.take k))) := by
    rw [writeLog, Task.start_bind, start_onDisk]
    rw [show (withOutage (some ⟨0, k⟩) e).mounted.disk = withOutage (some ⟨0, k⟩) e.mounted.disk from rfl,
      happend]
    rfl
  obtain ⟨z, hz, hm⟩ := record_failed (e := withOutage (some ⟨0, k⟩) e) h.content_log hw rfl
  exact ⟨_, z, hz, by rw [hm]; rfl⟩

/-- The log is written, though the disk may fail when it is forced out. -/
theorem record_passed (h : e.Rests dir place size s) (hlen : op.logBytes.length ≤ Disk.longestFile)
    (ho : ∀ k, o ≠ some ⟨0, k⟩) :
    (∃ o', (o = none → o' = none) ∧
      (record op).start (withOutage o e) = (.ok (), withOutage o' (e.logged op.logBytes))) ∨
    o ≠ none ∧ ∃ cause z, (record op).start (withOutage o e) = (.error (.error cause), z) ∧
      z.mounted.disk.restart = (e.logged op.logBytes).mounted.disk.restart := by
  obtain ⟨o₁, hnone, happend⟩ := Log.append_passed h.content_log hlen ho
  have hgives : (liftM (e.journal.log.append op.records) : Task Engine StorageError Unit).Gives
      (withOutage o e) () (withOutage o₁ (e.logged op.logBytes)) := by
    rw [Task.Gives, start_onDisk]
    rw [show (withOutage o e).mounted.disk = withOutage o e.mounted.disk from rfl, happend]
    rfl
  have hsync : (liftM e.journal.log.sync : Task Engine StorageError Unit).Survives
      (e.logged op.logBytes) (fun d => d = (e.logged op.logBytes).mounted.disk.restart) ()
      (e.logged op.logBytes) :=
    have hkept : e.journal.log.sync.Survives (e.logged op.logBytes).mounted.disk
        (fun d => d = (e.logged op.logBytes).mounted.disk.restart) () _ := Log.sync_survives rfl
    hkept.inPart.onPart
  rcases hsync o₁ with ⟨o₂, hnone', hok⟩ | ⟨ho₁, cause, z, herror, hdead, hcut⟩
  · refine .inl ⟨o₂, fun hn => hnone' (hnone hn), ?_⟩
    have hwritten : (writeLog e.journal.log op).Gives (withOutage o e) ()
        (withOutage o₂ (e.logged op.logBytes)) := hgives.bind hok
    exact record_gives (e := withOutage o e) h.content_log hwritten
  · refine .inr ⟨fun hn => ho₁ (hnone hn), ?_⟩
    have hwritten : (writeLog e.journal.log op).start (withOutage o e) = (.error (.error cause), z) := by
      rw [writeLog, hgives.start_bind, herror]
    obtain ⟨z', hz, hm⟩ := record_failed (e := withOutage o e) h.content_log hwritten hdead
    exact ⟨cause, z', hz, by rw [hm]; exact hcut⟩

end Rests

/-- The rest of a commit, when the operation is in the log. -/
def carryOut (op : Operation) : Task Engine StorageError Unit := do
  let log := (← Task.state).journal.log
  let installed : Task Engine StorageError Unit := install op log.syncs
  if let .error cause ← installed.attempt then
    markBroken
    refuse cause
  let emptied : Task Engine StorageError Unit := log.truncate
  if let .error _ ← emptied.attempt then markBroken

theorem commit_eq (op : Operation) :
    commit op = if op.isEmpty then pure () else record op >>= fun _ => carryOut op := rfl

theorem carryOut_gives {e₁ e₂ : Engine} {r : Except StorageError Unit}
    (hi : (liftM (install op e.journal.log.syncs) : Task Engine StorageError Unit).Gives e () e₁)
    (ht : ((liftM e.journal.log.truncate : Task Engine StorageError Unit).attempt :
      Task Engine StorageError (Except StorageError Unit)).Gives e₁ r e₂)
    (hend : (match r with
      | .error _ => markBroken
      | .ok _ => pure ()).Gives e₂ () z) : (carryOut op).Gives e () z := by
  refine (Task.Gives.state e).bind (hi.attempt.bind (ht.bind ?_))
  cases r with
  | error cause => exact hend
  | ok _ => exact hend

theorem carryOut_failed {cause : StorageError}
    (hi : (liftM (install op e.journal.log.syncs) : Task Engine StorageError Unit).start e =
      (.error (.error cause), z)) :
    (carryOut op).start e =
      (.error (.error cause), { z with journal := { z.journal with broken := true } }) := by
  rw [carryOut, (Task.Gives.state e).start_bind]
  dsimp only
  rw [Task.start_bind, Task.attempt, Task.start_ofStep, hi]
  rfl

/-- The operation is carried out, or the disk fails and it is done in the end. -/
theorem carryOut_start (h : e.mounted.Mirrors dir place size (s.withLog op.logBytes))
    (hnode : e.journal.log.node = s.logNode) (hop : op.Over size s) (hs : 8 ≤ size)
    (hfits : op.Fits dir size) (hkeys : ∀ f ∈ op.drafts, ∃ i d, op.draft? f i = some d) :
    ∃ e' t, e'.mounted.Mirrors dir place size t ∧ t.log = [] ∧ t.logNode = s.logNode ∧
      e'.journal = e.journal ∧ op.Complete size s t ∧ ∀ o,
        (∃ o', (o = none → o' = none) ∧
          (carryOut op).start (withOutage o e) = (.ok (), withOutage o' e')) ∨
        o ≠ none ∧ ((carryOut op).start (withOutage o e)).2.mounted.disk.restart.Redoes dir place size s op := by
  have hu : op.Underway size s [] [] [] (s.withLog op.logBytes) := (Operation.Underway.start hop hs).congr rfl rfl rfl
  obtain ⟨m, t, hi, hm, hlog, hc⟩ := install_survives h hop hs hfits hu (fun _ => rfl) hkeys
    (fun d hd => (.inl hd : d.Redoes dir place size s op)) e.journal.log.syncs
  have hc' : op.Complete size s (t.withLog []) := hc.congr rfl rfl rfl
  obtain ⟨m', ht, hm'⟩ := hm.truncate_survives (hnode.trans hc.logNode.symm)
    (fun d hd => (.inl ⟨t, hd, hlog, hc.forget⟩ : d.Redoes dir place size s op))
    fun d hd => .inr ⟨_, hd, rfl, hc'⟩
  refine ⟨{ e with mounted := m' }, t.withLog [], hm', rfl, hc.logNode, rfl, hc', fun o => ?_⟩
  have hinstalled : (liftM (install op e.journal.log.syncs) : Task Engine StorageError Unit).Survives e
      (Disk.Redoes dir place size s op) () { e with mounted := m } := hi.onPart
  have hemptied : (liftM e.journal.log.truncate : Task Engine StorageError Unit).Survives
      { e with mounted := m } (Disk.Redoes dir place size s op) () { e with mounted := m' } := ht.onPart
  rcases hinstalled o with ⟨o₁, hnone, hok⟩ | ⟨ho, cause, z, herror, -, hcut⟩
  · rcases hemptied o₁ with ⟨o₂, hnone', hok'⟩ | ⟨ho, cause, z, herror, -, hcut⟩
    · exact .inl ⟨o₂, fun hn => hnone' (hnone hn), carryOut_gives hok (.attempt hok') (.pure _ _)⟩
    · have hattempt : ((liftM e.journal.log.truncate : Task Engine StorageError Unit).attempt :
          Task Engine StorageError (Except StorageError Unit)).Gives
          (withOutage o₁ { e with mounted := m }) (.error cause) z := by
        rw [Task.Gives, Task.attempt, Task.start_ofStep, herror]
      refine .inr ⟨fun hn => ho (hnone hn), ?_⟩
      rw [(carryOut_gives hok hattempt (.change _ z)).eq]
      exact hcut
  · refine .inr ⟨ho, ?_⟩
    rw [carryOut_failed herror]
    exact hcut

namespace Rests

/-- An operation without changes is done as it is. -/
theorem complete_of_isEmpty (hop : op.Over size s) (hs : 8 ≤ size) (he : op.isEmpty = true) :
    op.Complete size s s := by
  simp only [Operation.isEmpty, Bool.and_eq_true, List.isEmpty_iff] at he
  obtain ⟨⟨hcreated, hdeleted⟩, hchanges⟩ := he
  have hnone : op.deleted.toList = [] := by
    rwa [← List.isEmpty_iff, Std.TreeSet.isEmpty_toList]
  have hu := Operation.Underway.start hop hs
  rwa [Operation.Complete, hnone, hcreated, hchanges]

/-- A commit on a disk that does not fail leaves an engine with all of the operation done. -/
theorem commit_gives (h : e.Rests dir place size s) (hop : op.Over size s) (hs : 8 ≤ size)
    (hfits : op.Fits dir size) (hkeys : ∀ f ∈ op.drafts, ∃ i d, op.draft? f i = some d)
    (hlen : op.logBytes.length ≤ Disk.longestFile) :
    ∃ e' t, (commit op).Gives e () e' ∧ e'.Rests dir place size t ∧ op.Complete size s t ∧
      e'.journal = e.journal := by
  rw [commit_eq]
  cases he : op.isEmpty with
  | true => exact ⟨e, s, .pure () e, h, complete_of_isEmpty hop hs he, rfl⟩
  | false =>
    rcases h.record_passed hlen (fun k => nofun : ∀ k, none ≠ some (⟨0, k⟩ : Outage)) with
      ⟨o', hnone, hrecord⟩ | ⟨hno, -⟩
    swap
    · exact absurd rfl hno
    obtain rfl := hnone rfl
    obtain ⟨e', t, hm, hlog, hnode, hjournal, hc, hall⟩ :=
      carryOut_start (h.logged op.logBytes) h.node hop hs hfits hkeys
    rcases hall none with ⟨o', hnone, hcarry⟩ | ⟨hno, -⟩
    swap
    · exact absurd rfl hno
    obtain rfl := hnone rfl
    rw [withOutage_eq_self h.live] at hrecord
    have hjournal' : e'.journal = e.journal := hjournal
    refine ⟨withOutage none e', t, .bind hrecord hcarry, ⟨hm.withOutage none, ?_, hlog, rfl⟩, hc, hjournal'⟩
    show e'.journal.log.node = t.logNode
    rw [hjournal', hnode]
    exact h.node

/-- What stands on the disk after a commit that is cut off at any call: if the log was cut short, the
files are as before, and else the operation is done in the end. -/
theorem commit_crash (h : e.Rests dir place size s) (hop : op.Over size s) (hs : 8 ≤ size)
    (hfits : op.Fits dir size) (hkeys : ∀ f ∈ op.drafts, ∃ i d, op.draft? f i = some d)
    (hlen : op.logBytes.length ≤ Disk.longestFile) (o : Option Outage) :
    (LetsThrough o op.logBytes.length →
      ((commit op).start (withOutage o e)).2.mounted.disk.restart.Redoes dir place size s op) ∧
    (¬ LetsThrough o op.logBytes.length →
      ((commit op).start (withOutage o e)).2.mounted.disk.restart.Drops dir place size s op) := by
  have hsame : s.withLog [] = s := by rw [← h.empty]; rfl
  rw [commit_eq]
  cases he : op.isEmpty with
  | true =>
    have hstocks : (withOutage o e).mounted.disk.restart.Stocks dir place size s :=
      (h.mirrors.stocks.withOutage o).restart
    refine ⟨fun _ => .inr ⟨s, hstocks, h.empty, complete_of_isEmpty hop hs he⟩, fun hno => ⟨0, ?_, ?_⟩⟩
    · refine Nat.pos_of_ne_zero fun hzero => hno fun k _ => ?_
      rw [hzero]
      exact Nat.zero_le k
    · rw [List.take_zero, hsame]
      exact hstocks
  | false =>
    rw [if_neg Bool.false_ne_true]
    have hredoes : (e.logged op.logBytes).mounted.disk.restart.Redoes dir place size s op :=
      .inl ⟨_, (h.logged op.logBytes).stocks.restart, rfl,
        (Operation.Underway.start hop hs).congr rfl rfl rfl⟩
    by_cases ho : ∃ k, o = some ⟨0, k⟩
    · obtain ⟨k, rfl⟩ := ho
      obtain ⟨cause, z, hrecord, hdisk⟩ := h.record_cut hlen k
      rw [Task.start_bind, hrecord]
      dsimp only
      rw [hdisk]
      refine ⟨fun hall => ?_, fun hno => ⟨k, ?_, (h.logged _).stocks.restart⟩⟩
      · rw [List.take_of_length_le (hall k rfl)]
        exact hredoes
      · refine Nat.lt_of_not_le fun hle => hno fun j hj => ?_
        cases hj
        exact hle
    · refine ⟨fun _ => ?_, fun hno => absurd (fun k hk => absurd ⟨k, hk⟩ ho) hno⟩
      rcases h.record_passed hlen (not_exists.mp ho) with ⟨o₁, -, hrecord⟩ | ⟨-, cause, z, hrecord, hdisk⟩
      · have hgives : (record op).Gives (withOutage o e) () (withOutage o₁ (e.logged op.logBytes)) := hrecord
        obtain ⟨e', t, hm, hlog, -, -, hc, hall⟩ :=
          carryOut_start (h.logged op.logBytes) h.node hop hs hfits hkeys
        rw [hgives.start_bind]
        rcases hall o₁ with ⟨o₂, -, hcarry⟩ | ⟨-, hcut⟩
        · rw [hcarry]
          exact .inr ⟨t, (hm.stocks.withOutage o₂).restart, hlog, hc⟩
        · exact hcut
      · rw [Task.start_bind, hrecord]
        dsimp only
        rw [hdisk]
        exact hredoes

end Rests

end Engine

end RefStore
