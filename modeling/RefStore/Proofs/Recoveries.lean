import RefStore.Proofs.Commits
import RefStore.Proofs.LogFormat

/-!
# Recovering an operation from the log

An operation whose records stand in the log is done over: what is done already is passed over, what is
missing is made up, and every page is mended. If the log was cut short, nothing is done over. Recovery
may be cut off itself, and the log is emptied at the very end. Main statements: `run_redoes`, `run_drops`.
-/

namespace RefStore

namespace Operation

/-- What an operation logs before its commit record. -/
def steps (op : Operation) : List LogPayload :=
  op.deleted.toList.map .fileDeleted ++ op.created.map (fun (file, name) => .fileCreated file name) ++
    op.changes.map fun (file, index, d) => pageUpdate file index d

variable {op : Operation} {p : LogPayload}

theorem payloads_eq (op : Operation) : op.payloads = op.steps ++ [.commit] := rfl

theorem records_eq (op : Operation) :
    op.records = (op.steps.map fun p => ⟨op.id, p⟩) ++ [⟨op.id, .commit⟩] := by
  rw [records, payloads_eq, List.map_append]
  rfl

theorem ne_commit_of_mem_steps (h : p ∈ op.steps) : p ≠ .commit := by
  rcases List.mem_append.mp h with h | h
  · rcases List.mem_append.mp h with h | h
    · obtain ⟨_, -, rfl⟩ := List.mem_map.mp h
      nofun
    · obtain ⟨_, -, rfl⟩ := List.mem_map.mp h
      nofun
  · obtain ⟨_, -, rfl⟩ := List.mem_map.mp h
    nofun

end Operation

namespace Recovery

variable {op : Operation}

theorem committed_records (op : Operation) : committed op.records = [op.id] := by
  have hsteps : (op.steps.map fun p => (⟨op.id, p⟩ : LogRecord)).filter
      (fun r => r.payload = .commit) = [] := by
    refine List.filter_eq_nil_iff.mpr fun r hr => ?_
    obtain ⟨p, hp, rfl⟩ := List.mem_map.mp hr
    simpa using Operation.ne_commit_of_mem_steps hp
  rw [committed, Operation.records_eq, List.filter_append, hsteps]
  simp [List.eraseDups_cons]

theorem payloads_records (op : Operation) : payloads op.records op.id = op.steps := by
  have hsteps : (op.steps.map fun p => (⟨op.id, p⟩ : LogRecord)).filter
      (fun r => r.operation = op.id ∧ r.payload ≠ .commit) =
        op.steps.map fun p => (⟨op.id, p⟩ : LogRecord) := by
    refine List.filter_eq_self.mpr fun r hr => ?_
    obtain ⟨p, hp, rfl⟩ := List.mem_map.mp hr
    simpa using Operation.ne_commit_of_mem_steps hp
  rw [payloads, Operation.records_eq, List.filter_append, hsteps, List.map_append, List.map_map]
  have hid : (LogRecord.payload ∘ fun p => (⟨op.id, p⟩ : LogRecord)) = id := rfl
  simp [hid]

/-- Without the last record no operation is committed. -/
theorem committed_take {n : Nat} (h : n < op.records.length) : committed (op.records.take n) = [] := by
  have hn : n ≤ (op.steps.map fun p => (⟨op.id, p⟩ : LogRecord)).length := by
    rw [Operation.records_eq, List.length_append] at h
    exact Nat.lt_succ_iff.mp h
  rw [committed, Operation.records_eq, List.take_append_of_le_length hn]
  have hnone : ((op.steps.map fun p => (⟨op.id, p⟩ : LogRecord)).take n).filter
      (fun r => r.payload = .commit) = [] := by
    refine List.filter_eq_nil_iff.mpr fun r hr => ?_
    obtain ⟨p, hp, rfl⟩ := List.mem_map.mp (List.mem_of_mem_take hr)
    simpa using Operation.ne_commit_of_mem_steps hp
  rw [hnone]
  rfl

end Recovery

/-- A volume, alike in memory and on its disk, on which an operation of the log is under way. -/
def Mounted.Carries (dir : Path) (place : Location) (size : Nat) (s : Stock) (op : Operation)
    (gone : List FileId) (made : List (FileId × String)) (done : List (FileId × PageIndex × Draft))
    (m : Mounted) : Prop :=
  ∃ t, m.Mirrors dir place size t ∧ t.log = op.logBytes ∧ op.Underway size s gone made done t

namespace Recovery

variable {m : Mounted} {dir : Path} {place : Location} {size : Nat} {s t : Stock} {op : Operation}
  {gone : List FileId} {made : List (FileId × String)} {done rest : List (FileId × PageIndex × Draft)}
  {id : FileId} {name : String} {i : PageIndex} {d : Draft} {cut : Disk → Prop}

theorem redo_fileDeleted (h : m.Carries dir place size s op gone made done) (hop : op.Over size s)
    (hm : ∀ e ∈ made, e ∈ op.created) (hcut : ∀ d, d.Amid dir place size s op op.logBytes → cut d)
    (hid : id ∈ op.deleted) : ∃ n m', (redo (.fileDeleted id)).Survives m cut n m' ∧
      m'.Carries dir place size s op (gone ++ [id]) made done := by
  obtain ⟨t, hmir, hlog, hu⟩ := h
  cases hname : t.names id with
  | none =>
    have hno : m.volume.files.contains id = false := by
      rw [Std.TreeMap.contains_eq_isSome_getElem?, hmir.noFile hname]
      rfl
    refine ⟨0, m, .state (fun o => rfl) ?_, t, hmir, hlog, hu.absent hname⟩
    rw [hno]
    exact .pure 0 m
  | some name =>
    obtain ⟨n, res, hfile, -⟩ := hmir.file hname
    have hyes : m.volume.files.contains id = true := by
      rw [Std.TreeMap.contains_eq_isSome_getElem?, hfile]
      rfl
    obtain ⟨m', hs, hm', hu'⟩ := hmir.delete_underway hop hu hm (hlog ▸ hcut) hid hname
    refine ⟨0, m', .state (fun o => rfl) ?_, _, hm', hlog, hu'⟩
    rw [hyes]
    exact .bind hs (.pure 0 m')

/-- A name that is taken is that of the file itself. -/
theorem redo_fileCreated (h : m.Carries dir place size s op gone made []) (hop : op.Over size s)
    (hs : 8 ≤ size) (hfits : op.Fits dir size) (hg : ∀ f, f ∈ gone ↔ f ∈ op.deleted)
    (hcut : ∀ d, d.Amid dir place size s op op.logBytes → cut d) (he : (id, name) ∈ op.created) :
    ∃ n m', (redo (.fileCreated id name)).Survives m cut n m' ∧
      m'.Carries dir place size s op gone (made ++ [(id, name)]) [] := by
  obtain ⟨t, hmir, hlog, hu⟩ := h
  rcases hu.created _ he with hname | hname
  · obtain ⟨m', hsurvives, hm', hu'⟩ := hmir.create_underway hop hs hfits hu hg (hlog ▸ hcut) he hname
    refine ⟨0, m', .state (fun o => rfl) ?_, _, hm', hlog, hu'⟩
    rw [hmir.idOf?_eq_none (hu.free hop (fun f hf => (hg f).mpr hf) he hname)]
    exact .bind hsurvives (.pure 0 m')
  · refine ⟨0, m, .state (fun o => rfl) ?_, t, hmir, hlog, hu.present hname⟩
    have hpresent : m.volume.idOf? name = some id := (hmir.catalog.idOf?_eq_some hmir.stocks.sane.inj).mpr hname
    rw [hpresent]
    dsimp only
    rw [if_neg (not_not_intro rfl)]
    exact .pure 0 m

/-- Whatever part of a page is there, the ranges of the log make it whole. -/
theorem redo_pageUpdate (h : m.Carries dir place size s op gone made done) (hop : op.Over size s)
    (hs : 8 ≤ size) (hlt : size < 4294967296) (hfits : op.Fits dir size) (hg : ∀ f ∈ op.deleted, f ∈ gone)
    (hm : ∀ e ∈ op.created, e ∈ made) (hcut : ∀ d, d.Amid dir place size s op op.logBytes → cut d)
    (hall : op.changes = done ++ (id, i, d) :: rest) :
    ∃ n m', (redo (Operation.pageUpdate id i d)).Survives m cut n m' ∧
      m'.Carries dir place size s op gone made (done ++ [(id, i, d)]) := by
  obtain ⟨t, hmir, hlog, hu⟩ := h
  have hx : (id, i, d) ∈ op.changes := hall ▸ List.mem_append_right _ List.mem_cons_self
  obtain ⟨name, hsees⟩ := hop.sees_of_change hx
  obtain ⟨pages, hd⟩ := hop.drafts hsees
  obtain ⟨-, -, ht, hsize⟩ := hd.change hx
  have hname := (hu.names_iff hop hg hm).mpr hsees
  obtain ⟨n, res, hfile, -⟩ := hmir.file hname
  have hyes : m.volume.files.contains id = true := by
    rw [Std.TreeMap.contains_eq_isSome_getElem?, hfile]
    rfl
  have hmends := (hu.pages id name hsees hname).mends_pageAt hd hs hx
  have hlay := Overlay.layRanges_eq ht hmends.size (by omega)
  obtain ⟨m', t', hsurvives, hm', hlog', -, hu'⟩ := hmir.install_underway hop hs hfits hu (hlog ▸ hcut)
    hall (by simp [hname]) ((Overlay.size_applyTo ht hmends.size).trans hsize)
    (Overlay.Mends.withSeal_eq ht (by omega) hmends)
  refine ⟨1, m', .state (fun o => rfl) ?_, t', hm', hlog'.trans hlog, hu'⟩
  rw [hyes]
  exact .bind (hmir.loadUnverified_survives hname (by omega) i) (.bind (.ofChecked hlay m)
    (.bind hsurvives (.pure 1 m')))

/-- Records are done over, and counted on. -/
def redosFrom (count : Nat) (payloads : List LogPayload) : Task Mounted StorageError Nat :=
  payloads.foldlM (fun count payload => return count + (← redo payload)) count

theorem redosFrom_append (c : Nat) (ps qs : List LogPayload) :
    redosFrom c (ps ++ qs) = redosFrom c ps >>= fun n => redosFrom n qs := List.foldlM_append ..

/-- Records of one kind are done over one after another. `P` says what holds when some are done. -/
theorem redosFrom_survives {γ : Type} {xs : List γ} {f : γ → LogPayload} {P : List γ → Mounted → Prop}
    (step : ∀ ys x zs m, xs = ys ++ x :: zs → P ys m →
      ∃ n m', (redo (f x)).Survives m cut n m' ∧ P (ys ++ [x]) m') (h : P [] m) (c : Nat) :
    ∃ n m', (redosFrom c (xs.map f)).Survives m cut n m' ∧ P xs m' := by
  rw [redosFrom, List.foldlM_map]
  refine Task.Survives.foldlM (fun ys x zs c m hall hm => ?_) h c
  obtain ⟨n, m', hs, hm'⟩ := step ys x zs m hall hm
  exact ⟨c + n, m', .bind hs (.pure _ m'), hm'⟩

/-- Deletions are done over first, then new files, then pages. -/
theorem redoAll_survives (h : m.Carries dir place size s op [] [] []) (hop : op.Over size s)
    (hs : 8 ≤ size) (hlt : size < 4294967296) (hfits : op.Fits dir size)
    (hcut : ∀ d, d.Amid dir place size s op op.logBytes → cut d) :
    ∃ n m', (redoAll op.steps).Survives m cut n m' ∧
      m'.Carries dir place size s op op.deleted.toList op.created op.changes := by
  obtain ⟨n₁, m₁, hs₁, h₁⟩ :
      ∃ n₁ m₁, (redosFrom 0 (op.deleted.toList.map LogPayload.fileDeleted)).Survives m cut n₁ m₁ ∧
        m₁.Carries dir place size s op op.deleted.toList [] [] := by
    refine redosFrom_survives (P := fun gone => Mounted.Carries dir place size s op gone [] [])
      (fun gone id rest m hall hm => redo_fileDeleted hm hop (by simp) hcut ?_) h 0
    rw [← Std.TreeSet.mem_toList, hall]
    simp
  obtain ⟨n₂, m₂, hs₂, h₂⟩ :
      ∃ n₂ m₂, (redosFrom n₁ (op.created.map fun (file, name) => .fileCreated file name)).Survives m₁ cut
        n₂ m₂ ∧ m₂.Carries dir place size s op op.deleted.toList op.created [] := by
    refine redosFrom_survives
      (P := fun made => Mounted.Carries dir place size s op op.deleted.toList made [])
      (fun made (id, name) rest m hall hm => ?_) h₁ n₁
    exact redo_fileCreated hm hop hs hfits (by simp) hcut (hall ▸ List.mem_append_right _ List.mem_cons_self)
  obtain ⟨n₃, m₃, hs₃, h₃⟩ :
      ∃ n₃ m₃, (redosFrom n₂ (op.changes.map fun (file, index, d) =>
        Operation.pageUpdate file index d)).Survives m₂ cut n₃ m₃ ∧
        m₃.Carries dir place size s op op.deleted.toList op.created op.changes := by
    refine redosFrom_survives
      (P := fun done => Mounted.Carries dir place size s op op.deleted.toList op.created done)
      (fun done (id, i, d) rest m hall hm => ?_) h₂ n₂
    exact redo_pageUpdate hm hop hs hlt hfits (by simp) (by simp) hcut hall
  refine ⟨n₃, m₃, ?_, h₃⟩
  show (redosFrom 0 op.steps).Survives m cut n₃ m₃
  rw [Operation.steps, redosFrom_append, redosFrom_append]
  exact .bind (.bind hs₁ hs₂) hs₃

/-! ## Reading the log -/

theorem scan_survives {log : Log} {d : Disk} {bs : List UInt8} (h : (d.content log.node).toList = bs) :
    log.scan.Survives d cut (LogScan.ofBytes bs) d := by
  subst h
  exact .ofReads fun o => log.scan_gives (withOutage o d)

variable {log : Log}

/-- An empty log says nothing. -/
theorem run_idle (h : m.Mirrors dir place size t) (hnode : log.node = t.logNode) (hempty : t.log = []) :
    (run log).Survives m cut ⟨0, 0, 0, 0, false⟩ m := by
  have hscan : log.scan.Survives m.disk cut ⟨[], false⟩ m.disk := by
    have hcontent : (m.disk.content log.node).toList = [] := by
      rw [hnode, h.stocks.content_log, hempty]
    rw [← LogScan.ofBytes_nil]
    exact scan_survives hcontent
  exact hscan.inPart.bind (.pure _ m)

/-- An operation that is in the log is done in the end, whenever recovery is cut off. -/
theorem run_redoes (h : m.Carries dir place size s op [] [] []) (hnode : log.node = s.logNode)
    (hop : op.Over size s) (hs : 8 ≤ size) (hlt : size < 4294967296) (hfits : op.Fits dir size)
    (hrec : ∀ r ∈ op.records, r.Encodable) :
    ∃ r m' t, (run log).Survives m (Disk.Redoes dir place size s op) r m' ∧
      m'.Mirrors dir place size t ∧ t.log = [] ∧ t.logNode = s.logNode ∧ op.Complete size s t := by
  obtain ⟨n, m', hredo, t, hm', hlog, hc⟩ := redoAll_survives h hop hs hlt hfits
    fun d hd => (.inl hd : d.Redoes dir place size s op)
  have hcut (d : Disk) (hd : d.Stocks dir place size t) : d.Redoes dir place size s op :=
    .inl ⟨t, hd, hlog, hc.forget⟩
  have hc' : op.Complete size s (t.withLog []) := hc.congr rfl rfl rfl
  obtain ⟨m'', htruncate, hm''⟩ := hm'.truncate_survives (hnode.trans hc.logNode.symm) hcut
    fun d hd => .inr ⟨_, hd, rfl, hc'⟩
  obtain ⟨t₀, hm, hlog₀, hu⟩ := h
  have hscan : log.scan.Survives m.disk (Disk.Redoes dir place size s op) ⟨op.records, false⟩ m.disk := by
    rw [← LogScan.ofBytes_flatMap hrec]
    refine scan_survives ?_
    rw [hnode, ← hu.logNode, hm.stocks.content_log, hlog₀]
    rfl
  have hne : op.records ≠ [] := by simp [Operation.records_eq]
  refine ⟨⟨op.records.length, 1, (discarded op.records).length, n, false⟩, m'', t.withLog [],
    hscan.inPart.bind ?_, hm'', rfl, hc.logNode, hc'⟩
  dsimp only
  rw [if_neg hne, committed_records, List.flatMap_singleton, payloads_records]
  exact .bind hredo (.bind (hm'.syncAll_survives hcut) (.bind htruncate (.pure _ m'')))

/-- Of a log that was cut short nothing is done over. -/
theorem run_drops {k : Nat} (h : m.Mirrors dir place size (s.withLog (op.logBytes.take k)))
    (hk : k < op.logBytes.length) (hnode : log.node = s.logNode) (hrec : ∀ r ∈ op.records, r.Encodable) :
    ∃ r m', (run log).Survives m (Disk.Drops dir place size s op) r m' ∧
      m'.Mirrors dir place size (s.withLog []) := by
  obtain ⟨n, hn, hrecords⟩ := LogScan.ofBytes_take hrec hk
  have hcut (d : Disk) (hd : d.Stocks dir place size (s.withLog (op.logBytes.take k))) :
      d.Drops dir place size s op := ⟨k, hk, hd⟩
  obtain ⟨m', htruncate, hm'⟩ := h.truncate_survives hnode hcut
    fun d hd => ⟨0, Nat.zero_lt_of_lt hk, hd⟩
  obtain ⟨scan, hscan⟩ : ∃ scan, scan = LogScan.ofBytes (op.logBytes.take k) := ⟨_, rfl⟩
  have hread : log.scan.Survives m.disk (Disk.Drops dir place size s op) scan m.disk := by
    rw [hscan]
    refine scan_survives ?_
    rw [hnode]
    exact h.stocks.content_log
  by_cases hnil : scan.records = []
  · cases htorn : scan.torn with
    | true =>
      refine ⟨⟨0, 0, 0, 0, scan.torn⟩, m', hread.inPart.bind ?_, hm'⟩
      rw [if_pos hnil, if_pos htorn]
      exact htruncate.bind (.pure _ m')
    | false =>
      have hempty : op.logBytes.take k = [] := LogScan.eq_nil_of_ofBytes (hscan ▸ hnil) (hscan ▸ htorn)
      rw [hempty] at h
      refine ⟨⟨0, 0, 0, 0, scan.torn⟩, m, hread.inPart.bind ?_, h⟩
      rw [if_pos hnil, if_neg (by simp [htorn])]
      exact .pure _ m
  · have hcommitted : committed scan.records = [] := by
      rw [hscan]
      exact hrecords ▸ committed_take hn
    refine ⟨⟨scan.records.length, 0, (discarded scan.records).length, 0, scan.torn⟩, m',
      hread.inPart.bind ?_, hm'⟩
    dsimp only
    rw [if_neg hnil, hcommitted]
    exact .bind (.pure 0 m) (.bind (h.syncAll_survives hcut) (.bind htruncate (.pure _ m')))

end Recovery

end RefStore
