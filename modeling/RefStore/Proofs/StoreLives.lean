import RefStore.Proofs.Estates

/-!
# Lives of a directory

A directory is opened, operations are committed or given up, and it is closed or left in a crash, any
number of times. Besides the calls on collections, an operation may work on the shared trees and the size
maps themselves, with any keys and slots. The files stay those of clusters. Main statement:
`Directory.Lives.housed`.
-/

namespace RefStore

variable {dir : Path} {size n k : Nat} {s : Stock} {st : Store} {w : Workspace}

/-- A directory is in use by an open store, or left on the disk. -/
inductive Directory where
  | inUse (st : Store)
  | left (disk : Disk)

namespace Directory

/-- The files are those of clusters, or will be once what was left is mounted. -/
def Housed (dir : Path) (size n : Nat) : Directory → Prop
  | inUse st => ∃ place s, st.Houses dir place size s n
  | left disk => ∀ {poolPages : Nat} {syncs : Bool} {st : Store} {report : RecoveryReport} {disk' : Disk},
      Tree.Ample size → 0 < poolPages → Store.mount dir size poolPages syncs disk = (.ok (st, report), disk') →
      ∃ place s, st.engine.Rests dir place size s ∧ s.Sealed ∧ s.Furnished size n

/-- A directory that was empty at first, and the number of deeds done since. Whatever outage cuts off a
commit, or comes between operations, it can be opened again, after any number of openings that are cut
off as well. -/
inductive Lives (dir : Path) (size : Nat) : Directory → Nat → Prop where
  | empty {disk d : Disk} (empty : Disk.OffersEmpty dir disk d) (sound : disk.Sound) (live : disk.outage = none) :
      Lives dir size (left disk) 0
  | opened {disk : Disk} {n : Nat} {settings : Settings} {st : Store} {report : RecoveryReport} {disk' : Disk}
      (before : Lives dir size (left disk) n) (pages : settings.pageSize = size)
      (opening : Store.open settings dir disk = (.ok (st, report), disk')) : Lives dir size (inUse st) n
  | committed {α : Type} {st : Store} {n : Nat} {op : Operation} {e : Engine} {k : Nat} {a : α} {st' : Store}
      (before : Lives dir size (inUse st) n) (started : Engine.start.Gives st.engine op e)
      (t : Task Workspace CollectionError α)
      (work : (Workspace.begun st e op).Performs k (t.start (.begun st e op)).2)
      (run : (Store.atomically t).Gives st a st') : Lives dir size (inUse st') (n + k)
  | rolledBack {α : Type} {st : Store} {n : Nat} {op : Operation} {e : Engine} {k : Nat}
      {cause : Failure CollectionError} (before : Lives dir size (inUse st) n)
      (started : Engine.start.Gives st.engine op e) (t : Task Workspace CollectionError α)
      (work : (Workspace.begun st e op).Performs k (t.start (.begun st e op)).2)
      (fails : (t.start (.begun st e op)).1 = .error cause) :
      Lives dir size (inUse ((Store.atomically t).start st).2) (n + k)
  | viewed {st : Store} {n : Nat} {st' : Store} (before : Lives dir size (inUse st) n) (views : st.Viewed st') :
      Lives dir size (inUse st') n
  | clusterLoaded {st : Store} {n : Nat} (before : Lives dir size (inUse st) n) (cluster : ClusterId) :
      Lives dir size (inUse ((Store.loadCluster cluster).start st).2) n
  | prohibited {st : Store} {n : Nat} (before : Lives dir size (inUse st) n) :
      Lives dir size (inUse (Store.prohibit.start st).2) n
  | closed {st : Store} {n : Nat} {d : Disk} (before : Lives dir size (inUse st) n)
      (reopens : Store.Reopens dir size (Store.close.start st).2.disk d) : Lives dir size (left d) n
  | crashed {st : Store} {n : Nat} {op : Operation} {e : Engine} {k : Nat} {w : Workspace} {d : Disk}
      (before : Lives dir size (inUse st) n) (started : Engine.start.Gives st.engine op e)
      (work : (Workspace.begun st e op).Performs k w) (storable : w.operation.Storable size) (o : Option Outage)
      (reopens : Store.Reopens dir size (w.store.engine.crashed w.operation o) d) : Lives dir size (left d) (n + k)

/-- However it was used, its files are those of clusters. -/
theorem Lives.housed {directory : Directory} (h : Lives dir size directory n) (hdir : dir.Roomy) (hn : n < 2 ^ 61) :
    directory.Housed dir size n := by
  induction h with
  | empty empty sound live =>
    intro _ _ _ _ _ _ _ hmount
    obtain ⟨place, node, hrests, -⟩ := Store.mount_empty empty sound live hdir.fits_log hmount
    exact ⟨place, _, hrests, nofun, nofun⟩
  | opened before pages opening ih =>
    exact Store.Houses.opened pages opening fun hample hpool hmount => ih hn hample hpool hmount
  | committed before started t work run ih =>
    obtain ⟨place, s, hs⟩ := ih (by omega)
    exact ⟨place, hs.finished started (work.backed (hs.backed started) hn) hdir run⟩
  | rolledBack before started t work fails ih =>
    obtain ⟨place, s, hs⟩ := ih (by omega)
    exact ⟨place, s, hs.undone started (work.backed (hs.backed started) hn) (by omega) fails⟩
  | viewed before views ih =>
    obtain ⟨place, s, hs⟩ := ih hn
    exact ⟨place, s, hs.viewed views⟩
  | clusterLoaded before cluster ih =>
    obtain ⟨place, s, hs⟩ := ih hn
    exact ⟨place, s, hs.loadCluster cluster⟩
  | prohibited before ih =>
    obtain ⟨place, s, hs⟩ := ih hn
    exact ⟨place, s, hs.prohibited⟩
  | closed before reopens ih =>
    obtain ⟨place, s, hs⟩ := ih hn
    intro _ _ _ _ _ _ hpool hmount
    exact hs.mounted_again hdir (hs.disk_close ▸ reopens) hpool hmount
  | crashed before started work storable o reopens ih =>
    obtain ⟨place, s, hs⟩ := ih (by omega)
    intro _ _ _ _ _ _ hpool hmount
    exact hs.mounted_crashed started (work.backed (hs.backed started) hn) (Nat.le_add_right _ _) hdir storable
      reopens hpool hmount

/-- In an operation on it, the workspace could as well have all pages in memory. -/
theorem Lives.backed (h : Lives dir size (.inUse st) n) (hdir : dir.Roomy) {op : Operation} {e : Engine}
    (started : Engine.start.Gives st.engine op e) (work : (Workspace.begun st e op).Performs k w)
    (hn : n + k < 2 ^ 61) : ∃ s, w.Backed st.engine.mounted e.journal size s (n + k) := by
  obtain ⟨place, s, hs⟩ := h.housed hdir (by omega)
  exact ⟨s, work.backed (hs.backed started) hn⟩

/-- A store that was built by calls on collections lives like this too. -/
theorem Lives.of_built {E : Estate} (h : Store.Built dir size st E n) (hdir : dir.Roomy) (hn : n < 2 ^ 61) :
    Lives dir size (inUse st) n := by
  induction h with
  | opened empty sound live pages opening => exact .opened (.empty empty sound live) pages opening
  | committed before started t work run ih => exact .committed (ih (by omega)) started t work.performs run
  | rolledBack before started t work fails ih => exact .rolledBack (ih (by omega)) started t work.performs fails
  | viewed before views ih => exact .viewed (ih hn) views
  | reopened before ended pages opening ih =>
    obtain ⟨place, s, hr, -⟩ := before.registers hdir hn
    refine .opened (.closed (ih hn) ?_) pages opening
    rw [ended.elim (fun he => he.trans hr.houses.disk_close.symm) id]
    exact .none

end Directory

end RefStore
