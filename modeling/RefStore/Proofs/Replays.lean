import Mathlib.Data.Finset.Card
import RefStore.Disk.Directory
import RefStore.Proofs.ForeignFiles
import RefStore.Proofs.LogFormat
import RefStore.Proofs.Recoveries

/-!
# Replaying a log

Recovery carries out the committed operations of a log, one after another, in the order of their commit
records. How the records of different operations alternate makes no difference, and what was not
committed does nothing. Main statement: `Recovery.run_serial`.
-/

namespace RefStore

/-! ## Lists without repetitions -/

theorem eraseDups_of_nodup {α : Type} [BEq α] [LawfulBEq α] {l : List α} (h : l.Nodup) :
    l.eraseDups = l := by
  induction l with
  | nil => rfl
  | cons a l ih =>
    obtain ⟨ha, hl⟩ := List.nodup_cons.mp h
    have hkeep : l.filter (fun b => !b == a) = l := by
      refine List.filter_eq_self.mpr fun b hb => ?_
      have hne : b ≠ a := fun he => ha (he ▸ hb)
      simpa using hne
    rw [List.eraseDups_cons, hkeep, ih hl]

theorem nodup_eraseDups {α : Type} [BEq α] [LawfulBEq α] (l : List α) : l.eraseDups.Nodup := by
  induction hn : l.length using Nat.strong_induction_on generalizing l with
  | _ n ih =>
    cases l with
    | nil => exact List.nodup_nil
    | cons a l =>
      rw [List.eraseDups_cons]
      refine List.nodup_cons.mpr ⟨fun ha => ?_, ih _ ?_ _ rfl⟩
      · simpa using (List.mem_filter.mp (List.mem_eraseDups.mp ha)).2
      · rw [← hn]
        exact Nat.lt_succ_of_le (List.length_filter_le _ l)

/-! ## Operations of a log -/

namespace LogRecord

/-- A commit record is the last record of its operation. -/
def CommitsLast (rs : List LogRecord) : Prop :=
  rs.Pairwise fun r r' => r.payload = .commit → r'.operation ≠ r.operation

/-- The operations that logged something. -/
def operations (rs : List LogRecord) : Finset OperationId := (rs.map operation).toFinset

/-- The same operations, each with the same records, and committed in the same order. -/
structure SameOperations (rs rs' : List LogRecord) : Prop where
  logged : ∀ id, rs.filter (·.operation = id) = rs'.filter (·.operation = id)
  commits : rs.filter (·.payload = .commit) = rs'.filter (·.payload = .commit)

variable {rs rs' : List LogRecord} {id : OperationId}

theorem mem_operations : id ∈ operations rs ↔ ∃ r ∈ rs, r.operation = id := by simp [operations]

theorem SameOperations.perm (h : SameOperations rs rs') : rs.Perm rs' := by
  refine List.perm_iff_count.mpr fun r => ?_
  have hcount (l : List LogRecord) : (l.filter (·.operation = r.operation)).count r = l.count r :=
    List.count_filter (by simp)
  rw [← hcount rs, ← hcount rs', h.logged]

theorem SameOperations.operations_eq (h : SameOperations rs rs') : operations rs = operations rs' :=
  List.toFinset_eq_of_perm _ _ (h.perm.map _)

end LogRecord

/-- A log of intact records. -/
structure Log.Holds (log : Log) (d : Disk) (rs : List LogRecord) : Prop where
  encodable : ∀ r ∈ rs, r.Encodable
  content : (d.content log.node).toList = rs.flatMap LogRecord.encode

namespace Recovery

open LogRecord

variable {rs rs' before rest : List LogRecord} {id : OperationId} {n : Nat} {m z : Mounted} {log : Log}

theorem mem_committed : id ∈ committed rs ↔ ⟨id, .commit⟩ ∈ rs := by
  rw [committed, List.mem_eraseDups, List.mem_map]
  constructor
  · rintro ⟨⟨op, p⟩, hr, rfl⟩
    obtain ⟨hr, hp⟩ := List.mem_filter.mp hr
    obtain rfl : p = .commit := by simpa using hp
    exact hr
  · exact fun h => ⟨_, List.mem_filter.mpr ⟨h, by simp⟩, rfl⟩

theorem length_committed (rs : List LogRecord) :
    (committed rs).length = ((operations rs).filter fun id => ⟨id, .commit⟩ ∈ rs).card := by
  have hnodup : (committed rs).Nodup := nodup_eraseDups _
  rw [← List.toFinset_card_of_nodup hnodup]
  congr 1
  ext id
  rw [Finset.mem_filter, mem_operations]
  refine List.mem_toFinset.trans (mem_committed.trans ⟨fun h => ⟨⟨_, h, rfl⟩, h⟩, And.right⟩)

theorem length_discarded (rs : List LogRecord) :
    (discarded rs).length = ((operations rs).filter fun id => ⟨id, .commit⟩ ∉ rs).card := by
  have hnodup : (discarded rs).Nodup := (nodup_eraseDups _).filter _
  rw [← List.toFinset_card_of_nodup hnodup]
  congr 1
  ext id
  rw [Finset.mem_filter, mem_operations, List.mem_toFinset, discarded, List.mem_filter, List.mem_eraseDups,
    List.mem_map, ← mem_committed]
  simp

theorem committed_eq (h : CommitsLast rs) :
    committed rs = (rs.filter fun r => r.payload = .commit).map LogRecord.operation := by
  refine eraseDups_of_nodup (List.pairwise_map.mpr ?_)
  have hcommits := List.Pairwise.filter (fun r => decide (r.payload = .commit)) h
  refine hcommits.imp_of_mem fun {r r'} hr _ hlast heq => ?_
  have hr := (List.mem_filter.mp hr).2
  exact hlast (by simpa using hr) heq.symm

/-- What an operation logged stands before its commit record. -/
theorem payloads_commit {r : LogRecord} (hr : r.payload = .commit) (h : CommitsLast (before ++ r :: rest)) :
    payloads (before ++ r :: rest) r.operation = payloads before r.operation := by
  have hrest := (List.pairwise_cons.mp (List.pairwise_append.mp h).2.1).1
  have hnone : (r :: rest).filter (fun r' => r'.operation = r.operation ∧ r'.payload ≠ .commit) = [] := by
    refine List.filter_eq_nil_iff.mpr fun r' hr' => ?_
    rcases List.mem_cons.mp hr' with rfl | hr'
    · simp [hr]
    · simp [hrest r' hr' hr]
  rw [payloads, payloads, List.filter_append, hnone, List.append_nil]

theorem redosFrom_eq (c : Nat) (ps : List LogPayload) : redosFrom c ps = (c + ·) <$> redoAll ps := by
  induction ps generalizing c with
  | nil => rfl
  | cons p ps ih =>
    rw [redosFrom, redoAll, List.foldlM_cons, List.foldlM_cons]
    simp only [bind_assoc, pure_bind, map_bind]
    refine congrArg (redo p >>= ·) (funext fun k => ?_)
    show redosFrom (c + k) ps = (c + ·) <$> redosFrom (0 + k) ps
    rw [ih, ih, Functor.map_map]
    simp only [Nat.zero_add, Nat.add_assoc]

theorem redoAll_append (ps qs : List LogPayload) :
    redoAll (ps ++ qs) = do return (← redoAll ps) + (← redoAll qs) := by
  have h := redosFrom_append 0 ps qs
  simp only [redosFrom_eq, Nat.zero_add, id_map'] at h
  rw [h]
  simp

/-- One operation after another: with its commit record, what an operation logged before is carried out. -/
def serial : List LogRecord → List LogRecord → Task Mounted StorageError Nat
  | _, [] => return 0
  | before, r :: rest =>
    if r.payload = .commit then do
      return (← redoAll (payloads before r.operation)) + (← serial (before ++ [r]) rest)
    else serial (before ++ [r]) rest

/-- It is the same to look for the committed operations first and then for what they logged. -/
theorem serial_eq (h : CommitsLast (before ++ rest)) : serial before rest =
    redoAll (((rest.filter fun r => r.payload = .commit).map LogRecord.operation).flatMap
      (payloads (before ++ rest))) := by
  induction rest generalizing before with
  | nil => rfl
  | cons r rest ih =>
    have hsplit : before ++ r :: rest = (before ++ [r]) ++ rest := by simp
    rw [serial]
    split
    · next hr =>
      rw [List.filter_cons_of_pos (by simpa using hr), List.map_cons, List.flatMap_cons, redoAll_append,
        payloads_commit hr h, hsplit, ih (hsplit ▸ h)]
    · next hr =>
      rw [List.filter_cons_of_neg (by simpa using hr), hsplit, ih (hsplit ▸ h)]

/-! ## Volumes that the records are carried out on -/

theorem redo_agrees (p : LogPayload) : (redo p).Agrees (Mounted.AlikeAside n) := by
  cases p with
  | fileCreated file name =>
    refine .state_bind (fun _ _ h => by rw [h.volume]) fun m => ?_
    dsimp only
    cases m.volume.idOf? name with
    | none => exact (Mounted.createWithId_agrees file name).bind fun _ => .pure _
    | some present =>
      exact .guarded (.refuse _) (.pure _)
  | pageUpdate file index ranges =>
    have hpages : (do
        let page ← Mounted.loadUnverified file index
        let page ← Task.ofChecked (ranges.foldlM layRange page)
        Mounted.installPage file index page
        return 1 : Task Mounted StorageError Nat).Agrees (Mounted.AlikeAside n) :=
      (Mounted.loadUnverified_agrees file index).bind fun _ => (Task.Agrees.ofChecked _).bind fun page =>
        (Mounted.installPage_agrees file index page).bind fun _ => .pure _
    refine .state_bind (fun _ _ h => by rw [h.volume]) fun m => ?_
    split
    · exact .pure _
    · exact hpages
  | fileDeleted file =>
    refine .state_bind (fun _ _ h => by rw [h.volume]) fun m => ?_
    split
    · exact (Mounted.delete_agrees file).bind fun _ => .pure _
    · exact .pure _
  | commit => exact .pure _

theorem redoAll_agrees (ps : List LogPayload) : (redoAll ps).Agrees (Mounted.AlikeAside n) :=
  .foldlM (fun _ p => (redo_agrees p).bind fun _ => .pure _) 0

theorem truncate_agrees (log : Log) :
    (liftM log.truncate : Task Mounted StorageError Unit).Agrees (Mounted.AlikeAside n) := by
  refine Mounted.onDisk_agrees ((Disk.setLength_agrees log.node 0).embed.bind fun _ => ?_)
  rw [Log.sync]
  split
  · exact (Disk.sync_agrees log.node).embed
  · exact .pure ()

/-- What recovery does about the records that it has read. -/
def replay (log : Log) (rs : List LogRecord) : Task Mounted StorageError RecoveryReport := do
  if rs = [] then return ⟨0, 0, 0, 0, false⟩
  let restored ← redoAll ((committed rs).flatMap (payloads rs))
  Mounted.syncAll
  log.truncate
  return ⟨rs.length, (committed rs).length, (discarded rs).length, restored, false⟩

theorem run_start (h : log.Holds m.disk rs) : (run log).start m = (replay log rs).start m := by
  have hscan : log.scan.Gives m.disk ⟨rs, false⟩ m.disk := by
    have hread := log.scan_gives m.disk
    rwa [h.content, LogScan.ofBytes_flatMap h.encodable] at hread
  have hread : (liftM (log.scan : Task Disk LogError LogScan) : Task Mounted StorageError LogScan).Gives
      m ⟨rs, false⟩ m := hscan.inPart
  rw [run, hread.start_bind]
  rfl

theorem replay_agrees (log : Log) (rs : List LogRecord) : (replay log rs).Agrees (Mounted.AlikeAside n) := by
  unfold replay
  split
  · exact .pure _
  · exact (redoAll_agrees _).bind fun _ => Mounted.syncAll_agrees.bind fun _ =>
      (truncate_agrees log).bind fun _ => .pure _

/-- Operations are told apart by their ids, not by where their records stand. -/
theorem replay_congr (h : SameOperations rs rs') (log : Log) : replay log rs = replay log rs' := by
  have hnil : rs = [] ↔ rs' = [] := by
    rw [← List.length_eq_zero_iff, ← List.length_eq_zero_iff, h.perm.length_eq]
  have hcommitted : committed rs = committed rs' := by rw [committed, committed, h.commits]
  have hpayloads : payloads rs = payloads rs' := by
    funext id
    have hlogged (l : List LogRecord) : payloads l id =
        ((l.filter (·.operation = id)).filter (·.payload ≠ .commit)).map LogRecord.payload := by
      rw [payloads, List.filter_filter]
      simp [Bool.and_comm]
    rw [hlogged, hlogged, h.logged]
  have hdiscarded : (discarded rs).length = (discarded rs').length := by
    rw [length_discarded, length_discarded, h.operations_eq]
    simp only [h.perm.mem_iff]
  simp only [replay, hnil, hcommitted, hpayloads, hdiscarded, h.perm.length_eq]

theorem replay_gives {report : RecoveryReport} (hne : rs ≠ []) (h : (replay log rs).Gives m report z) :
    ∃ k m₁ m₂, (redoAll ((committed rs).flatMap (payloads rs))).Gives m k m₁ ∧
      Mounted.syncAll.Gives m₁ () m₂ ∧
      (liftM log.truncate : Task Mounted StorageError Unit).Gives m₂ () z ∧
      report = ⟨rs.length, (committed rs).length, (discarded rs).length, k, false⟩ := by
  rw [replay, if_neg hne] at h
  obtain ⟨k, m₁, hredo, h⟩ := Task.bind_gives h
  obtain ⟨_, m₂, hsync, h⟩ := Task.bind_gives h
  obtain ⟨_, m₃, htruncate, h⟩ := Task.bind_gives h
  obtain ⟨rfl, rfl⟩ := Task.gives_pure h
  exact ⟨k, m₁, m₂, hredo, hsync, htruncate, rfl⟩

theorem syncAll_keeps (m : Mounted) : Mounted.syncAll.Keeps fun x => x.SameAside n m := by
  have hsync (k : Nat) : (Disk.sync k).Keeps fun d => d.SameAside n m.disk := by
    intro d h
    rw [Disk.sync, Disk.perform, Task.start_ofStep]
    rcases d.outage with _ | ⟨_ | calls, bytes⟩
    · exact h
    · dsimp only [Disk.cutEffect]
      split <;> exact { h with }
    · exact { h with }
  have hfile (f : OpenFile) : f.file.sync.Keeps fun d => d.SameAside n m.disk := (hsync f.file.node).embed
  refine .bind .state fun m₁ => .forM fun id _ => .bind (Mounted.openFile_keeps _ id) fun f => ?_
  exact .mapError _ ((hfile f).within (fun _ h => h.disk) fun _ _ h hd => { h with disk := hd })

/-- Emptying the log changes nothing else. -/
theorem truncate_gives (h : (liftM log.truncate : Task Mounted StorageError Unit).Gives m () z)
    {m₁ : Mounted} (hm : m.SameAside log.node m₁) :
    z.SameAside log.node m₁ ∧ (z.disk.content log.node).toList = [] := by
  obtain ⟨d, hd, rfl⟩ := Task.inPart_gives h
  obtain ⟨_, d₁, h₁, hd⟩ := Task.bind_gives hd
  have hset := Disk.setLength_rewrites (Task.embed_gives h₁)
  have hempty : (d₁.content log.node).toList = [] := by
    rw [hset.self, Contents.toList_resize]
    simp
  have hside : d₁.SameAside log.node m₁.disk :=
    { entries := hset.entries.trans hm.disk.entries
      nextNode := hset.next.trans hm.disk.nextNode
      content := fun k hk => by
        rw [hset.content, if_neg hk]
        exact hm.disk.content k hk
      known := hset.next ▸ hm.disk.known }
  rw [Log.sync] at hd
  split at hd
  · obtain ⟨hentries, hcontents, hnext⟩ := Disk.perform_gives (Task.embed_gives hd)
    have hsame (k : Nat) : d.content k = d₁.content k := by rw [Disk.content, hcontents]; rfl
    refine ⟨⟨⟨?_, ?_, ?_, ?_⟩, hm.volume, hm.apart⟩, ?_⟩
    · exact hentries.trans hside.entries
    · exact hnext.trans hside.nextNode
    · exact fun k hk => (hsame k).trans (hside.content k hk)
    · exact hnext ▸ hside.known
    · exact (congrArg Contents.toList (hsame log.node)).trans hempty
  · obtain ⟨-, rfl⟩ := Task.gives_pure hd
    exact ⟨⟨hside, hm.volume, hm.apart⟩, hempty⟩

/-- The log is empty in the end, and nothing but the log differs from what carrying the records out gave. -/
theorem replay_leaves {report : RecoveryReport} (hm : m.Apart log.node) (hlog : log.Holds m.disk rs)
    (h : (replay log rs).Gives m report z) : (z.disk.content log.node).toList = [] ∧
      ∃ m₁, (redoAll ((committed rs).flatMap (payloads rs))).Gives m report.restored m₁ ∧
        z.SameAside log.node m₁ := by
  by_cases hne : rs = []
  · subst hne
    rw [replay, if_pos rfl] at h
    obtain ⟨rfl, rfl⟩ := Task.gives_pure h
    exact ⟨hlog.content, _, .pure 0 _, hm.alike.toSameAside⟩
  · obtain ⟨k, m₁, m₂, hredo, hsync, htruncate, rfl⟩ := replay_gives hne h
    have hdone := (redoAll_agrees (n := log.node) ((committed rs).flatMap (payloads rs)) m m hm.alike).2
    rw [hredo.eq] at hdone
    have hsynced := (syncAll_keeps m₁).gives hsync hdone.toSameAside
    obtain ⟨hside, hempty⟩ := truncate_gives htruncate hsynced
    exact ⟨hempty, m₁, hredo, hside⟩

theorem replay_counts {report : RecoveryReport} (h : (replay log rs).Gives m report z) :
    report.scanned = rs.length ∧ report.replayed = (committed rs).length ∧
      report.discarded = (discarded rs).length := by
  by_cases hne : rs = []
  · subst hne
    rw [replay, if_pos rfl] at h
    obtain ⟨rfl, rfl⟩ := Task.gives_pure h
    exact ⟨rfl, rfl, rfl⟩
  · obtain ⟨k, m₁, m₂, -, -, -, rfl⟩ := replay_gives hne h
    exact ⟨rfl, rfl, rfl⟩

/-- Recovery depends on what was committed, and in which order, only. -/
theorem run_serial {report : RecoveryReport} (hm : m.Apart log.node) (hlog : log.Holds m.disk rs)
    (hlast : CommitsLast rs) (h : (run log).Gives m report z) :
    (∃ m₁, (serial [] rs).Gives m report.restored m₁ ∧ z.SameAside log.node m₁ ∧ z.ShowsSame m₁) ∧
    report.scanned = rs.length ∧
    report.replayed = ((operations rs).filter fun id => ⟨id, .commit⟩ ∈ rs).card ∧
    report.discarded = ((operations rs).filter fun id => ⟨id, .commit⟩ ∉ rs).card ∧
    (z.disk.content log.node).toList = [] ∧
    ∀ rs' m', m.AlikeAside log.node m' → log.Holds m'.disk rs' → SameOperations rs rs' →
      ∃ z', (run log).Gives m' report z' ∧ z.ShowsSame z' ∧ (z'.disk.content log.node).toList = [] := by
  rw [Task.Gives, run_start hlog] at h
  obtain ⟨hempty, m₁, hredo, hside⟩ := replay_leaves hm hlog h
  obtain ⟨hscanned, hreplayed, hdiscarded⟩ := replay_counts h
  refine ⟨⟨m₁, ?_, hside, hside.showsSame⟩, hscanned, hreplayed.trans (length_committed rs),
    hdiscarded.trans (length_discarded rs), hempty, fun rs' m' halike hlog' hsame => ?_⟩
  · rw [serial_eq (show CommitsLast ([] ++ rs) from hlast), List.nil_append, ← committed_eq hlast]
    exact hredo
  · obtain ⟨hvalue, hends⟩ := replay_agrees (n := log.node) log rs m m' halike
    rw [h] at hvalue hends
    have hgives : (replay log rs').Gives m' report ((replay log rs).start m').2 := by
      rw [← replay_congr hsame log]
      exact Prod.ext hvalue.symm rfl
    refine ⟨_, ?_, hends.toSameAside.showsSame, (replay_leaves halike.right hlog' hgives).1⟩
    rw [Task.Gives, run_start hlog']
    exact hgives

/-- Two operations create a file each, and the one that began first is committed. Only its file is there. -/
theorem run_serial_creation : ∃ (rs : List LogRecord) (m z : Mounted) (log : Log) (report : RecoveryReport),
    rs = [⟨1, .fileCreated 4 "a.grb"⟩, ⟨2, .fileCreated 5 "b.grb"⟩, ⟨1, .commit⟩] ∧
    m.Apart log.node ∧ log.Holds m.disk rs ∧ CommitsLast rs ∧ (run log).Gives m report z ∧
    (report.replayed = 1 ∧ report.discarded = 1) ∧
    z.volume.idOf? "a.grb" = some 4 ∧ z.volume.idOf? "b.grb" = none ∧
    (∃ m₁, (serial [] rs).Gives m report.restored m₁ ∧ z.ShowsSame m₁) ∧
    (z.disk.content log.node).toList = [] := by
  obtain ⟨rs, hrs⟩ : ∃ rs : List LogRecord,
      rs = [⟨1, .fileCreated 4 "a.grb"⟩, ⟨2, .fileCreated 5 "b.grb"⟩, ⟨1, .commit⟩] := ⟨_, rfl⟩
  obtain ⟨m, hm⟩ : ∃ m : Mounted, m =
      ⟨Disk.ofFiles [(Log.fileName, Block.ofList (rs.flatMap LogRecord.encode))], .top, 64, 1, .empty, ∅⟩ :=
    ⟨_, rfl⟩
  have hapart : m.Apart 0 := by
    rw [hm]
    exact ⟨Nat.zero_lt_one, fun id f hf => nomatch Std.TreeMap.getElem?_emptyc.symm.trans hf⟩
  have hlog : Log.Holds ⟨0, false⟩ m.disk rs := by
    refine ⟨?_, ?_⟩
    · have hfirst : Encodable ⟨1, .fileCreated 4 "a.grb"⟩ :=
        ⟨show "a.grb".utf8ByteSize < 65536 by decide, by decide⟩
      have hsecond : Encodable ⟨2, .fileCreated 5 "b.grb"⟩ :=
        ⟨show "b.grb".utf8ByteSize < 65536 by decide, by decide⟩
      have hcommit : Encodable ⟨1, .commit⟩ := ⟨trivial, by decide⟩
      rw [hrs]
      simp [hfirst, hsecond, hcommit]
    · rw [hm, hrs]
      decide +kernel
  have hlast : CommitsLast rs := by
    rw [hrs, CommitsLast]
    decide
  have hreport : (match ((replay ⟨0, false⟩ rs).start m).1 with
      | .ok r => decide (r = ⟨3, 1, 1, 0, false⟩)
      | .error _ => false) = true := by
    rw [hm, hrs]
    decide +kernel
  have hnames : ((replay ⟨0, false⟩ rs).start m).2.volume.idOf? "a.grb" = some 4 ∧
      ((replay ⟨0, false⟩ rs).start m).2.volume.idOf? "b.grb" = none := by
    rw [hm, hrs]
    decide +kernel
  rcases hrun : (replay ⟨0, false⟩ rs).start m with ⟨cause | report, z⟩
  · rw [hrun] at hreport
    cases hreport
  rw [hrun] at hreport hnames
  have hgives : (run ⟨0, false⟩).Gives m report z := (run_start hlog).trans hrun
  obtain ⟨⟨m₁, hserial, -, hshows⟩, -, -, -, hempty, -⟩ := run_serial hapart hlog hlast hgives
  obtain rfl : report = ⟨3, 1, 1, 0, false⟩ := of_decide_eq_true hreport
  exact ⟨rs, m, z, ⟨0, false⟩, _, hrs, hapart, hlog, hlast, hgives, ⟨rfl, rfl⟩, hnames.1, hnames.2,
    ⟨m₁, hserial, hshows⟩, hempty⟩

end Recovery

end RefStore
