import RefStore.Proofs.EmptyDirectories
import RefStore.Proofs.RestingEngines

/-!
# Crash atomicity

Wherever a commit is cut off, and however often the recovery after it is cut off as well, the directory
can be opened again, and then holds the files and pages from before the operation or those that a whole
commit leaves; the latter if the operation was in the log. Main statement:
`Engine.Reached.crash_atomic`.
-/

namespace RefStore

/-! ## Operations on the files of clusters -/

/-- New files are files of clusters, and neither a file nor the log gets longer than a disk allows. -/
structure Operation.Storable (size : Nat) (op : Operation) : Prop where
  named : ∀ {id name}, (id, name) ∈ op.created →
    ∃ cluster, name = Cluster.treeName cluster ∨ name = Cluster.sizesName cluster
  room : ∀ {id i d}, (id, i, d) ∈ op.changes → (i.toNat + 1) * size ≤ Disk.longestFile
  logged : op.logBytes.length ≤ Disk.longestFile

theorem Operation.Storable.fits {dir : Path} {size : Nat} {op : Operation} (h : op.Storable size)
    (hdir : dir.Roomy) : op.Fits dir size where
  named he := by
    obtain ⟨cluster, rfl | rfl⟩ := h.named he
    · obtain ⟨hdata, hle⟩ := Cluster.treeName_dataName cluster
      exact ⟨hdata, hdir.fits hdata.plain hle⟩
    · obtain ⟨hdata, hle⟩ := Cluster.sizesName_dataName cluster
      exact ⟨hdata, hdir.fits hdata.plain hle⟩
  room := h.room

theorem Path.Roomy.fits_catalog {dir : Path} (h : dir.Roomy) : dir.Fits Catalog.fileName :=
  h.fits Store.plain_catalog (by decide)

theorem Path.Roomy.fits_log {dir : Path} (h : dir.Roomy) : dir.Fits Log.fileName :=
  h.fits Store.plain_log (by decide)

/-- All pages of the files have their seals. -/
def Stock.Sealed (s : Stock) : Prop := ∀ {f x}, s.names f = some x → ∀ p ∈ s.pages f, p.verify = .ok ()

namespace Operation.Complete

variable {dir : Path} {place place' : Location} {size : Nat} {s t t' : Stock} {op : Operation} {d d' : Disk}

theorem sealed (h : op.Complete size s t) (hop : op.Over size s) (hs : 8 ≤ size)
    (ht : d.Stocks dir place size t) (hv : s.Sealed) : t.Sealed := fun hf _ hp =>
  h.verified hop hs (by simp) (by simp) (fun hf => ht.sane.length_lt hf (by omega)) hv hf hp

/-- Whatever way an operation was done, the same files are left. -/
theorem sameFiles (h : op.Complete size s t) (h' : op.Complete size s t') (hop : op.Over size s) (hs : 8 ≤ size)
    (ht : d.Stocks dir place size t) (ht' : d'.Stocks dir place' size t') : t.SameFiles t' :=
  Underway.sameFiles hop h h' (by simp) (by simp) (by simp) (by simp)
    (fun hf => ht.sane.length_lt hf (by omega)) fun hf => ht'.sane.length_lt hf (by omega)

end Operation.Complete

namespace Engine

variable {e e' e₂ : Engine} {op : Operation} {dir : Path} {place : Location} {size : Nat} {s t : Stock}

/-- The engine takes up an operation, which makes some requests. -/
inductive Works (e : Engine) : Operation → Engine → Prop where
  | requests {e₁ : Engine} {id : OperationId} {t : Transaction} (start : Engine.start.Gives e (.fresh id) e₁)
      (edits : Edits e₁.mounted id t) : Works e t.operation { e₁ with mounted := t.mounted }

/-- What is on the disk after a commit that an outage cuts off, or none. -/
def crashed (e : Engine) (op : Operation) (o : Option Outage) : Disk :=
  ((commit op).start (withOutage o e)).2.mounted.disk.restart

/-- The engines of stores that began in an empty directory: after operations, committed or given up, and
after crashes of commits, with any number of openings that are cut off as well. -/
inductive Reached (dir : Path) (size : Nat) : Engine → Prop where
  | opened {disk d disk' : Disk} {pool : Nat} {syncs : Bool} {s : Store} {report : RecoveryReport}
      (empty : Disk.OffersEmpty dir disk d) (sound : disk.Sound) (live : disk.outage = none)
      (mount : Store.mount dir size pool syncs disk = (.ok (s, report), disk')) : Reached dir size s.engine
  | givenUp {e e' : Engine} {op : Operation} (before : Reached dir size e) (work : e.Works op e') :
      Reached dir size e'
  | committed {e e' e₂ : Engine} {op : Operation} (before : Reached dir size e) (work : e.Works op e')
      (storable : op.Storable size) (commit : (commit op).Gives e' () e₂) : Reached dir size e₂
  | reopened {e e' : Engine} {op : Operation} (before : Reached dir size e) (work : e.Works op e')
      (storable : op.Storable size) (o : Option Outage) {d disk' : Disk}
      (reopens : Store.Reopens dir size (e'.crashed op o) d) {pool : Nat} (room : 0 < pool) {syncs : Bool}
      {s : Store} {report : RecoveryReport}
      (mount : Store.mount dir size pool syncs d = (.ok (s, report), disk')) : Reached dir size s.engine

namespace Rests

/-- To take up an operation does not change what is committed. -/
theorem works (h : e.Rests dir place size s) (hs : 8 ≤ size) (hw : e.Works op e') :
    e'.Rests dir place size s ∧ op.Over size s ∧ op.Drafted ∧ e.mounted.Unchanged e'.mounted := by
  cases hw with
  | @requests e₁ id t start edits =>
    obtain ⟨-, -, rfl⟩ := start_eq start
    have hu := edits.unchanged
    have hover := edits.over (h.mirrors.serves hs)
    refine ⟨⟨h.mirrors.of_unchanged hu hover.serves, h.node, h.empty, ?_⟩, hover.operation, edits.drafted, hu⟩
    exact (congrArg Disk.outage hu.disk).trans h.live

/-- What a commit leaves on the disk, when an outage cuts it off, is done over or dropped. -/
theorem recovers (h : e.Rests dir place size s) (hs : 8 ≤ size) (hsize : size ≤ Settings.maxPageSize)
    (hop : op.Over size s) (hdrafted : op.Drafted) (hdir : dir.Roomy) (hst : op.Storable size)
    {o : Option Outage} {d : Disk} (hd : Store.Reopens dir size (e.crashed op o) d) :
    ∃ keep goal, Store.Recovers dir place size keep goal d ∧ ∀ t, goal t →
      LetsThrough o op.logBytes.length ∧ op.Complete size s t ∨
        ¬ LetsThrough o op.logBytes.length ∧ t = s.withLog [] := by
  have hfits := hst.fits hdir
  have hrec := Operation.records_encodable hop hsize hfits
  obtain ⟨hredoes, hdrops⟩ := h.commit_crash hop hs hfits hdrafted hst.logged o
  have hlt : size < 4294967296 := Nat.lt_of_le_of_lt hsize (by decide)
  by_cases hall : LetsThrough o op.logBytes.length
  · have hmount {d : Disk} (hd : d.Redoes dir place size s op) :=
      Store.mount_redoes hd hop hs hlt hfits hrec hdir.fits_catalog hdir.fits_log
    exact ⟨_, _, hmount (hd.keeps (hredoes hall) fun _ hd => hmount hd), fun _ hc => .inl ⟨hall, hc⟩⟩
  · have hmount {d : Disk} (hd : d.Drops dir place size s op) :=
      Store.mount_drops hd (by omega) hrec hdir.fits_catalog hdir.fits_log
    exact ⟨_, _, hmount (hd.keeps (hdrops hall) fun _ hd => hmount hd), fun _ hc => .inr ⟨hall, hc⟩⟩

end Rests

namespace Reached

/-- Between operations, the disk holds what is committed and the log is empty. -/
theorem rests (h : Reached dir size e) (hdir : dir.Roomy) (hs : 8 ≤ size)
    (hsize : size ≤ Settings.maxPageSize) : ∃ place s, e.Rests dir place size s ∧ s.Sealed := by
  induction h with
  | opened empty sound live mount =>
    obtain ⟨place, node, hrests, -⟩ := Store.mount_empty empty sound live hdir.fits_log mount
    exact ⟨place, _, hrests, nofun⟩
  | givenUp before work ih =>
    obtain ⟨place, s, hrests, hv⟩ := ih
    exact ⟨place, s, (hrests.works hs work).1, hv⟩
  | committed before work storable commit ih =>
    obtain ⟨place, s, hrests, hv⟩ := ih
    obtain ⟨hrests', hop, hdrafted, -⟩ := hrests.works hs work
    obtain ⟨e₂, t, hgives, hrests₂, hc, -⟩ :=
      hrests'.commit_gives hop hs (storable.fits hdir) hdrafted storable.logged
    obtain ⟨-, rfl⟩ := hgives.unique commit
    exact ⟨place, t, hrests₂, hc.sealed hop hs hrests₂.mirrors.stocks hv⟩
  | reopened before work storable o reopens room mount ih =>
    obtain ⟨place, s, hrests, hv⟩ := ih
    obtain ⟨hrests', hop, hdrafted, -⟩ := hrests.works hs work
    obtain ⟨keep, goal, hrecovers, hends⟩ :=
      hrests'.recovers hs hsize hop hdrafted hdir storable reopens
    obtain ⟨st, r, t, hmount, hrests₂, hgoal⟩ := hrecovers.gives _ room (reopens.live rfl)
    rw [hmount] at mount
    cases mount
    refine ⟨place, t, hrests₂, ?_⟩
    rcases hends t hgoal with ⟨-, hc⟩ | ⟨-, rfl⟩
    · exact hc.sealed hop hs hrests₂.mirrors.stocks hv
    · exact hv

/-- A commit succeeds when there is no outage. Wherever an outage cuts it off, the directory can be opened
again, after any number of openings that are cut off as well. It has then the files, ids and pages of the
whole commit if the outage let the log through, and those from before the operation if not. -/
theorem crash_atomic (h : Reached dir size e) (hdir : dir.Roomy) (hs : 8 ≤ size)
    (hsize : size ≤ Settings.maxPageSize) (work : e.Works op e') (storable : op.Storable size) :
    ∃ e₂, (commit op).Gives e' () e₂ ∧
      ∀ (o : Option Outage) (d : Disk), Store.Reopens dir size (e'.crashed op o) d →
        ∀ (pool : Nat) (syncs : Bool), 0 < pool → ∃ st report,
          Store.mount dir size pool syncs d = (.ok (st, report), st.disk) ∧
          (LetsThrough o op.logBytes.length → st.engine.mounted.answers = e₂.mounted.answers) ∧
          (¬ LetsThrough o op.logBytes.length → st.engine.mounted.answers = e.mounted.answers) := by
  obtain ⟨place, s, hrests, hv⟩ := h.rests hdir hs hsize
  obtain ⟨hrests', hop, hdrafted, hu⟩ := hrests.works hs work
  obtain ⟨e₂, t₂, hgives, hrests₂, hc, -⟩ :=
    hrests'.commit_gives hop hs (storable.fits hdir) hdrafted storable.logged
  refine ⟨e₂, hgives, fun o d hd pool syncs hp => ?_⟩
  obtain ⟨keep, goal, hrecovers, hends⟩ :=
    hrests'.recovers hs hsize hop hdrafted hdir storable hd
  obtain ⟨st, report, t, hmount, hrests₃, hgoal⟩ := hrecovers.gives syncs hp (hd.live rfl)
  rcases hends t hgoal with ⟨hall, hc'⟩ | ⟨hno, rfl⟩
  · refine ⟨st, report, hmount, fun _ => ?_, fun hno => absurd hall hno⟩
    exact hrests₂.mirrors.answers_eq hrests₃.mirrors hs (hc.sealed hop hs hrests₂.mirrors.stocks hv)
      (hc.sameFiles hc' hop hs hrests₂.mirrors.stocks hrests₃.mirrors.stocks)
  · refine ⟨st, report, hmount, fun hall => absurd hall hno, fun _ => ?_⟩
    exact hrests.mirrors.answers_eq hrests₃.mirrors hs hv ⟨fun _ => rfl, fun _ => rfl⟩

/-- In a new directory an operation can make the file of a tree. -/
theorem exists_newFile : ∃ e e' op, Reached ⟨["d"]⟩ 1024 e ∧ e.mounted.volume.catalog = .empty ∧ e.Works op e' ∧
    op = ({ Operation.fresh 1 with
      created := [(0, Cluster.treeName 1)], counts := (Operation.fresh 1).counts.insert 0 0 } : Operation) := by
  have hdir := Path.roomy_d
  obtain ⟨d, hempty⟩ := Disk.exists_offersEmpty
  obtain ⟨s, report, disk', hmount⟩ : ∃ s report disk',
      Store.mount ⟨["d"]⟩ 1024 1 false Disk.empty = (.ok (s, report), disk') := by
    have hok : (Store.mount ⟨["d"]⟩ 1024 1 false Disk.empty).1.isOk = true := by decide +kernel
    rcases hr : Store.mount ⟨["d"]⟩ 1024 1 false Disk.empty with ⟨_ | ⟨s, report⟩, disk'⟩
    · rw [hr] at hok
      cases hok
    · exact ⟨s, report, disk', rfl⟩
  obtain ⟨place, node, hrests, hvolume, hjournal⟩ :=
    Store.mount_empty hempty Disk.sound_empty rfl hdir.fits_log hmount
  have hnext : s.engine.mounted.volume.catalog.nextId = 0 := congrArg (·.catalog.nextId) hvolume
  have start := start_of_usable (e := s.engine) (by rw [hjournal])
  rw [show s.engine.journal.nextOperation = 1 from congrArg Journal.nextOperation hjournal] at start
  have room : (Request.addFile (Cluster.treeName 1)).HasRoom ⟨s.engine.mounted, .fresh 1⟩ := by
    show s.engine.mounted.volume.catalog.nextId ≠ FileId.none
    rw [hnext]
    decide
  have work := Works.requests start (.request .begun (.addFile (Cluster.treeName 1)) room)
  obtain ⟨b, hb, hiff⟩ := (Transaction.Over.begun (hrests.mirrors.serves (by decide)) 1).fileExists
    (Cluster.treeName 1)
  obtain rfl : b = false := by
    refine Bool.eq_false_iff.mpr fun htrue => ?_
    obtain ⟨id, hsees | hsees⟩ := hiff.mp htrue
    · simp [Operation.fresh] at hsees
    · cases hsees.1
  refine ⟨s.engine, _, _, .opened hempty Disk.sound_empty rfl hmount, congrArg Volume.catalog hvolume, work, ?_⟩
  rw [Request.run, (Transaction.addFile_free hb).start_bind]
  show ((⟨s.engine.mounted, .fresh 1⟩ : Transaction).withFile _).operation = _
  rw [Transaction.withFile, hnext]
  rfl

/-- A new file is there after a crash that comes when the log is written, and after an opening that fails;
it is not there after a crash that cuts the log short. -/
theorem crash_atomic_newFile : ∃ (e e' e₂ : Engine) (op : Operation) (st st' : Store)
    (report report' : RecoveryReport) (d : Disk),
    Reached ⟨["d"]⟩ 1024 e ∧ e.Works op e' ∧ op.created = [(0, Cluster.treeName 1)] ∧
      (commit op).Gives e' () e₂ ∧
      d = (Store.mount ⟨["d"]⟩ 1024 1 false (withOutage (some ⟨3, 0⟩) (e'.crashed op (some ⟨2, 0⟩)))).2.restart ∧
      Store.mount ⟨["d"]⟩ 1024 1 false d = (.ok (st, report), st.disk) ∧
      st.engine.mounted.answers = e₂.mounted.answers ∧
      st.engine.mounted.answers.openFile (Cluster.treeName 1) = .ok 0 ∧
      Store.mount ⟨["d"]⟩ 1024 1 false (e'.crashed op (some ⟨0, 9⟩)) = (.ok (st', report'), st'.disk) ∧
      st'.engine.mounted.answers = e.mounted.answers ∧
      st'.engine.mounted.answers.openFile (Cluster.treeName 1) = refuse (.fileNotFound (Cluster.treeName 1)) := by
  have hdir := Path.roomy_d
  obtain ⟨e, e', op, reached, hcatalog, work, hop⟩ := exists_newFile
  have hcreated : op.created = [(0, Cluster.treeName 1)] := by rw [hop]
  have storable : op.Storable 1024 := by
    refine ⟨fun {id name} he => ⟨1, .inl ?_⟩, fun {id i d} hx => ?_, ?_⟩
    · rw [hcreated, List.mem_singleton, Prod.mk.injEq] at he
      exact he.2
    · have hd := (Operation.mem_changes.mp hx).1
      rw [hop] at hd
      simp [Operation.draft?, Operation.fresh] at hd
    · rw [hop]
      decide +kernel
  have hlong : ¬ LetsThrough (some ⟨0, 9⟩) op.logBytes.length := fun hall => by
    have hle := hall 9 rfl
    rw [hop] at hle
    revert hle
    decide +kernel
  obtain ⟨e₂, hcommit, hcrash⟩ := crash_atomic reached hdir (by decide) (by decide) work storable
  obtain ⟨st, report, hst, hthrough, -⟩ := hcrash (some ⟨2, 0⟩) _
    (.again .none Nat.one_pos false (some ⟨3, 0⟩)) 1 false Nat.one_pos
  obtain ⟨st', report', hst', -, hshort⟩ := hcrash (some ⟨0, 9⟩) _ .none 1 false Nat.one_pos
  have hwhole : st.engine.mounted.answers = e₂.mounted.answers := hthrough fun k hk => by cases hk
  have hbefore := hshort hlong
  -- the file is one of the commit and was none before
  obtain ⟨place, s, hrests, -⟩ := reached.rests hdir (by decide) (by decide)
  obtain ⟨hrests', hover, -⟩ := hrests.works (by decide) work
  obtain ⟨⟨s', hfilled⟩, -⟩ := commit_filled hover (hrests'.mirrors.serves (by decide)) hrests'.node hcommit
  have hnew : e₂.mounted.answers.openFile (Cluster.treeName 1) = .ok 0 :=
    congrArg Prod.fst (hfilled.serves.findFile ((hfilled.names 0 _).mpr (.inl (by rw [hcreated]; exact .head _)))).eq
  have hserves := hrests.mirrors.serves (by decide)
  have hnone : e.mounted.answers.openFile (Cluster.treeName 1) = refuse (.fileNotFound (Cluster.treeName 1)) := by
    refine congrArg Prod.fst (hserves.findFile_none fun f hf => ?_)
    rw [← hserves.catalog.name, hcatalog] at hf
    cases hf
  exact ⟨e, e', e₂, op, st, st', report, report', _, reached, work, hcreated, hcommit, rfl, hst, hwhole,
    hwhole ▸ hnew, hst', hbefore, hbefore ▸ hnone⟩

end Reached

end Engine

end RefStore
