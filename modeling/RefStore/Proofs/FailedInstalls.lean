import RefStore.Proofs.CollectionSizes
import RefStore.Proofs.CrashAtomicity

/-!
# Installs that fail

An operation is in the log, and the disk fails while it is carried out. The store takes back what the
operation registered and does no work any more, and the next opening finishes the operation. Main
statement: `Engine.Reached.failed_install_recovered`.
-/

namespace RefStore

instance : OnDisk Store where
  disk := Store.disk
  withDisk disk st := { st with engine := OnDisk.withDisk disk st.engine }
  disk_withDisk _ _ := rfl
  withDisk_withDisk _ _ _ := rfl
  withDisk_disk _ := rfl

namespace Store

variable {α : Type} {st st' : Store}

theorem atomically_refuses (t : Task Workspace CollectionError α) (hb : st.engine.journal.broken = true) :
    (atomically t).start st = (refuse (.storage .recoveryRequired), st) := by
  have hstart : (liftM Engine.start : Task Store CollectionError Operation).start st =
      (refuse (.storage .recoveryRequired), st) := by
    show (((Engine.start.start st.engine).1.mapError CollectionError.storage,
      { st with engine := (Engine.start.start st.engine).2 }) : Checked CollectionError Operation × Store) = _
    rw [Engine.start, Task.start_bind, Engine.checkUsable_refuses hb]
    rfl
  rw [atomically, Task.start_bind, hstart]
  rfl

/-- The store after any number of attempts to run an operation or a view. Between them the disk may start
to work again, or fail anew. -/
inductive Tried (st : Store) : Store → Prop where
  | nothing : Tried st st
  | outage {st' : Store} (before : Tried st st') (o : Option Outage) : Tried st (withOutage o st')
  | operation {α : Type} {st' : Store} (before : Tried st st') (t : Task Workspace CollectionError α) :
      Tried st ((atomically t).start st').2
  | view {α : Type} {st' : Store} (before : Tried st st') (t : Task Workspace CollectionError α) :
      Tried st ((view t).start st').2

/-- A broken store stays as it is. -/
theorem Tried.eq_withOutage (h : st.Tried st') (hb : st.engine.journal.broken = true) :
    ∃ o, st' = withOutage o st := by
  induction h with
  | nothing => exact ⟨st.disk.outage, (withOutage_eq_self rfl).symm⟩
  | outage before o ih =>
    obtain ⟨o', rfl⟩ := ih
    exact ⟨o, withOutage_withOutage o o' st⟩
  | operation before t ih =>
    obtain ⟨o', rfl⟩ := ih
    exact ⟨o', by rw [atomically_refuses t (show (withOutage o' st).engine.journal.broken = true from hb)]⟩
  | view before t ih =>
    obtain ⟨o', rfl⟩ := ih
    exact ⟨o', by rw [view_refuses t (show (withOutage o' st).engine.journal.broken = true from hb)]⟩

end Store

namespace Engine

open Mounted

variable {e e' e₁ : Engine} {m : Mounted} {dir : Path} {place : Location} {size : Nat} {s : Stock}
  {op : Operation} {o : Option Outage} {failure : Failure StorageError}

namespace Rests

/-- A log that was written was let through. -/
theorem letsThrough_of_record (h : e.Rests dir place size s) (hlen : op.logBytes.length ≤ Disk.longestFile)
    (logged : (record op).Gives (withOutage o e) () e₁) : ∀ k, o ≠ some ⟨0, k⟩ := by
  rintro k rfl
  obtain ⟨cause, z, hz, -⟩ := h.record_cut hlen k
  rw [logged.eq] at hz
  cases hz

/-- Only the disk can keep an operation from being carried out. The commit fails as it does, and the engine
is broken from then on. -/
theorem commit_broken (h : e.Rests dir place size s) (hop : op.Over size s) (hs : 8 ≤ size)
    (hfits : op.Fits dir size) (hkeys : ∀ f ∈ op.drafts, ∃ i d, op.draft? f i = some d)
    (hlen : op.logBytes.length ≤ Disk.longestFile) (changes : op.isEmpty = false)
    (logged : (record op).Gives (withOutage o e) () e₁)
    (fails : (install op e₁.journal.log.syncs).start e₁.mounted = (.error failure, m)) :
    ∃ cause z, failure = .error cause ∧
      (commit op).start (withOutage o e) = (.error (.error cause), z) ∧ z.journal.broken = true := by
  rcases h.record_passed hlen (h.letsThrough_of_record hlen logged) with ⟨o', -, hrecord⟩ | ⟨-, cause, z, herror, -⟩
  swap
  · rw [logged.eq] at herror
    cases herror
  obtain rfl : e₁ = withOutage o' (e.logged op.logBytes) :=
    congrArg Prod.snd (logged.eq.symm.trans hrecord)
  obtain ⟨m', t, hi, -⟩ := install_survives (h.logged op.logBytes) hop hs hfits
    ((Operation.Underway.start hop hs).congr rfl rfl rfl) (fun _ => rfl) hkeys
    (fun _ hd => hd) e.journal.log.syncs
  rcases hi o' with ⟨o₂, -, hok⟩ | ⟨-, cause, z, herror, -⟩
  · exact absurd (fails.symm.trans hok) nofun
  · obtain ⟨rfl, rfl⟩ : failure = .error cause ∧ m = z := by
      simpa using fails.symm.trans herror
    have hlifted : (liftM (install op e.journal.log.syncs) : Task Engine StorageError Unit).start
        (withOutage o' (e.logged op.logBytes)) =
        (.error (.error cause), { withOutage o' (e.logged op.logBytes) with mounted := m }) := by
      show (((install op e.journal.log.syncs).start (withOutage o' (e.logged op.logBytes).mounted)).1,
        ({ withOutage o' (e.logged op.logBytes) with
          mounted := ((install op e.journal.log.syncs).start (withOutage o' (e.logged op.logBytes).mounted)).2 } :
          Engine)) = _
      rw [herror]
    have hcarry := carryOut_failed (e := withOutage o' (e.logged op.logBytes)) hlifted
    rw [commit_eq, changes, if_neg Bool.false_ne_true, logged.start_bind, hcarry]
    exact ⟨cause, _, rfl, rfl, rfl⟩

end Rests

/-- An operation is in the log, and a call fails while it is carried out. The commit fails as that call
does, what the operation registered is taken back, and whatever is tried from then on, no task is run and
nothing changes. When the disk works again, the directory can be opened, after any number of openings that
are cut off as well, and has the files, ids and pages of the whole commit. -/
theorem Reached.failed_install_recovered {α : Type} (h : Reached dir size e) (hdir : dir.Roomy) (hs : 8 ≤ size)
    (hsize : size ≤ Settings.maxPageSize) (work : e.Works op e') (storable : op.Storable size)
    (changes : op.isEmpty = false) (logged : (record op).Gives (withOutage o e') () e₁)
    (fails : (install op e₁.journal.log.syncs).start e₁.mounted = (.error failure, m))
    (r : Registry) (undo : List Undo) (a : α) :
    ∃ cause st e₂, failure = .error cause ∧
      (Workspace.mk ⟨withOutage o e', r⟩ op undo).finish (.ok a) = (refuse (.storage cause), st) ∧
      st.registry = undo.foldl Registry.undo r ∧ (commit op).Gives e' () e₂ ∧
      ∀ {st'}, st.Tried st' → st'.disk.restart = st.disk.restart ∧ st'.registry = st.registry ∧
        (∀ {β : Type} (t : Task Workspace CollectionError β),
          (Store.atomically t).start st' = (refuse (.storage .recoveryRequired), st') ∧
          (Store.view t).start st' = (refuse (.storage .recoveryRequired), st')) ∧
        ∀ {d}, Store.Reopens dir size st'.disk.restart d → ∀ {pool} (syncs : Bool), 0 < pool →
          ∃ st₂ report, Store.mount dir size pool syncs d = (.ok (st₂, report), st₂.disk) ∧
            st₂.engine.mounted.answers = e₂.mounted.answers := by
  obtain ⟨place, s, hrests, -⟩ := h.rests hdir hs hsize
  obtain ⟨hrests', hop, hdrafted, -⟩ := hrests.works hs work
  obtain ⟨cause, z, rfl, hcommit, hbroken⟩ := hrests'.commit_broken hop hs (storable.fits hdir) hdrafted
    storable.logged changes logged fails
  obtain ⟨e₂, hgives, hcrash⟩ := h.crash_atomic hdir hs hsize work storable
  refine ⟨cause, ⟨z, undo.foldl Registry.undo r⟩, e₂, rfl, ?_, rfl, hgives, fun {st'} tried => ?_⟩
  · rw [Workspace.finish, hcommit]
    rfl
  · obtain ⟨o', rfl⟩ := tried.eq_withOutage hbroken
    refine ⟨rfl, rfl, fun t => ⟨Store.atomically_refuses t hbroken, Store.view_refuses t hbroken⟩,
      fun {d} hd {pool} syncs hp => ?_⟩
    have hdisk : e'.crashed op o = z.mounted.disk.restart := by rw [crashed, hcommit]
    obtain ⟨st₂, report, hmount, hthrough, -⟩ := hcrash o d (hdisk ▸ hd) pool syncs hp
    exact ⟨st₂, report, hmount, hthrough fun k hk =>
      absurd hk (hrests'.letsThrough_of_record storable.logged logged k)⟩

/-- Whether a new file is recorded but not installed, when the disk fails as the new catalog is written. -/
def failedCatalogRun : Bool :=
  match Store.mount ⟨["d"]⟩ 1024 1 true Disk.empty with
  | (.ok (st, _), _) =>
    match Engine.start.start st.engine with
    | (.ok op, e) =>
      decide (e.mounted.volume.catalog.nextId = 0) &&
      let t := ((Request.addFile (Cluster.treeName 1)).run.start ⟨e.mounted, op⟩).2
      decide (t.operation.created = [(0, Cluster.treeName 1)] ∧ t.operation.changes.isEmpty ∧
        t.operation.logBytes.length ≤ Disk.longestFile) &&
      match (record t.operation).start (withOutage (some ⟨4, 7⟩) { e with mounted := t.mounted }) with
      | (.ok (), e₁) =>
        match (install t.operation e₁.journal.log.syncs).start e₁.mounted with
        | (.error _, _) => true
        | _ => false
      | _ => false
    | _ => false
  | _ => false

/-- The disk fails when the new catalog is written, of which seven bytes stay. -/
theorem Reached.failed_catalog_recovered : ∃ (e e' e₁ e₂ : Engine) (op : Operation) (m : Mounted) (st st₂ : Store)
    (cause : StorageError) (report : RecoveryReport),
    Reached ⟨["d"]⟩ 1024 e ∧ e.Works op e' ∧ op.created = [(0, Cluster.treeName 1)] ∧
      (record op).Gives (withOutage (some ⟨4, 7⟩) e') () e₁ ∧
      (install op e₁.journal.log.syncs).start e₁.mounted = (.error (.error cause), m) ∧
      (Workspace.mk ⟨withOutage (some ⟨4, 7⟩) e', .empty⟩ op []).finish (.ok ()) = (refuse (.storage cause), st) ∧
      (∀ t : Task Workspace CollectionError Unit,
        (Store.atomically t).start st = (refuse (.storage .recoveryRequired), st)) ∧
      Store.mount ⟨["d"]⟩ 1024 1 false st.disk.restart = (.ok (st₂, report), st₂.disk) ∧
      (commit op).Gives e' () e₂ ∧ st₂.engine.mounted.answers = e₂.mounted.answers := by
  have hrun : failedCatalogRun = true := by
    decide +kernel
  unfold failedCatalogRun at hrun
  obtain ⟨d, hempty⟩ := Disk.exists_offersEmpty
  split at hrun
  case h_2 => cases hrun
  case h_1 st₀ report₀ disk' hmount =>
  split at hrun
  case h_2 => cases hrun
  case h_1 op₀ e started =>
  rw [Bool.and_eq_true, Bool.and_eq_true, decide_eq_true_eq, decide_eq_true_eq] at hrun
  obtain ⟨hnext, ⟨hcreated, hchanges, hlog⟩, hrun⟩ := hrun
  obtain ⟨-, rfl, -⟩ := start_eq started
  set t := ((Request.addFile (Cluster.treeName 1)).run.start ⟨e.mounted, .fresh st₀.engine.journal.nextOperation⟩).2
  split at hrun
  case h_2 => cases hrun
  case h_1 e₁ logged =>
  split at hrun
  case h_2 => cases hrun
  case h_1 failure m fails =>
  have hdir := Path.roomy_d
  have reached : Reached ⟨["d"]⟩ 1024 st₀.engine := .opened hempty Disk.sound_empty rfl hmount
  have room : (Request.addFile (Cluster.treeName 1)).HasRoom
      ⟨e.mounted, .fresh st₀.engine.journal.nextOperation⟩ := by
    show e.mounted.volume.catalog.nextId ≠ FileId.none
    rw [hnext]
    decide
  have work : st₀.engine.Works t.operation { e with mounted := t.mounted } :=
    .requests started (.request .begun (.addFile (Cluster.treeName 1)) room)
  have storable : t.operation.Storable 1024 := by
    refine ⟨fun {id name} he => ⟨1, .inl ?_⟩, fun {id i d} hx => ?_, hlog⟩
    · rw [hcreated, List.mem_singleton, Prod.mk.injEq] at he
      exact he.2
    · rw [List.isEmpty_iff.mp hchanges] at hx
      cases hx
  have changes : t.operation.isEmpty = false := by
    rw [Operation.isEmpty, hcreated]
    rfl
  obtain ⟨cause, st, e₂, rfl, hfinish, -, hcommit, hlater⟩ :=
    reached.failed_install_recovered hdir (by decide) (by decide) work storable changes logged fails .empty [] ()
  obtain ⟨-, -, hrefuses, hreopens⟩ := hlater .nothing
  obtain ⟨st₂, report, hst₂, hanswers⟩ := hreopens .none false Nat.one_pos
  exact ⟨st₀.engine, _, e₁, e₂, t.operation, m, st, st₂, cause, report, reached, work, hcreated, logged, fails,
    hfinish, fun t => (hrefuses t).1, hst₂, hcommit, hanswers⟩

end Engine

end RefStore
