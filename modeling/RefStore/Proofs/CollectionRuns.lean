import RefStore.Proofs.CollectionIds

/-!
# Runs of a store

A run opens a store, works on its collections in operations that are committed or rolled back, and
opens it again any number of times. Its ledger lists the collections that are alive. Main statement:
`Run.ids_apart`.
-/

namespace RefStore.Collection

open Workspace (At Advances)

/-- A collection that is alive. It is counted as long as the store is not opened again on a count
below its id. -/
structure Live where
  pointer : CollectionPointer
  counted : Bool
  deriving DecidableEq, Repr

/-- The collections that are alive, the oldest first. -/
abbrev Ledger := List Live

namespace Ledger

def enter (p : CollectionPointer) (l : Ledger) : Ledger := l ++ [⟨p, true⟩]

def strike (p : CollectionPointer) (l : Ledger) : Ledger := l.filter fun m => m.pointer ≠ p

def strikeFile (file : FileId) (l : Ledger) : Ledger := l.filter fun m => m.pointer.file ≠ file

def recount (c : CollectionId) (l : Ledger) : Ledger :=
  l.map fun m => { m with counted := m.counted && decide (m.pointer.collection ≤ c) }

/-- A call that fails has done nothing to the ledger. -/
def after (l : Ledger) : Checked CollectionError (Ledger → Ledger) → Ledger
  | .ok f => f l
  | .error _ => l

/-- Every counted collection has an id within the count, which no younger one has. -/
structure Kept (l : Ledger) (c : CollectionId) : Prop where
  nonneg : 0 ≤ c
  le : ∀ m ∈ l, m.counted → m.pointer.collection ≤ c
  apart : l.Pairwise fun m m' => m.counted → m.pointer.collection ≠ m'.pointer.collection

namespace Kept

variable {l l' : Ledger} {c c' : CollectionId}

theorem nil (h : 0 ≤ c) : Kept [] c := ⟨h, nofun, .nil⟩

theorem mono (h : Kept l c) (hc : c ≤ c') : Kept l c' :=
  ⟨Int64.le_trans h.nonneg hc, fun m hm hl => Int64.le_trans (h.le m hm hl) hc, h.apart⟩

theorem sublist (h : Kept l c) (hs : l'.Sublist l) : Kept l' c :=
  ⟨h.nonneg, fun m hm => h.le m (hs.subset hm), h.apart.sublist hs⟩

theorem enter (h : Kept l c) {p : CollectionPointer} (hlt : c < p.collection)
    (hle : p.collection ≤ c') : Kept (l.enter p) c' := by
  have hc : c ≤ c' := Int64.le_trans (Int64.le_of_lt hlt) hle
  refine ⟨Int64.le_trans h.nonneg hc, fun m hm hl => ?_, ?_⟩
  · rcases List.mem_append.mp hm with hm | hm
    · exact Int64.le_trans (h.le m hm hl) hc
    · cases List.mem_singleton.mp hm
      exact hle
  · refine List.pairwise_append.mpr ⟨h.apart, List.pairwise_singleton _ _, fun m hm m' hm' hl => ?_⟩
    cases List.mem_singleton.mp hm'
    exact Int64.ne_of_lt (Int64.lt_of_le_of_lt (h.le m hm hl) hlt)

theorem recount (h : Kept l c) (hc : 0 ≤ c') : Kept (l.recount c') c' := by
  refine ⟨hc, fun m hm hl => ?_, List.pairwise_map.mpr (h.apart.imp fun ha hl => ?_)⟩
  · obtain ⟨m', -, rfl⟩ := List.mem_map.mp hm
    exact of_decide_eq_true (Bool.and_eq_true _ _ ▸ hl).2
  · exact ha (Bool.and_eq_true _ _ ▸ hl).1

end Kept

end Ledger

/-- What an operation may do. -/
inductive Call where
  | create (cluster : ClusterId)
  | createOwned (session : Session) (cluster : ClusterId) (owner : Option Uuid)
  | put (c : Collection) (r : RecordRef) (value : Int32)
  | remove (c : Collection) (r : RecordRef)
  | get (c : Collection) (r : RecordRef)
  | size (c : Collection)
  | entries (c : Collection)
  | first (c : Collection)
  | last (c : Collection)
  | load (p : CollectionPointer)
  | delete (p : CollectionPointer)
  | addCluster (cluster : ClusterId)
  | dropCluster (cluster : ClusterId)
  | hook (label : String)

namespace Call

variable {α : Type} {c : CollectionId} {w : Workspace} {l : Ledger}

/-- A task that neither makes nor deletes a collection. -/
def plain (t : Task Workspace CollectionError α) :
    Task Workspace CollectionError (Ledger → Ledger) := do
  let _ ← t
  return fun l => l

/-- Run a call, and say what it does to the ledger. -/
def run : Call → Task Workspace CollectionError (Ledger → Ledger)
  | .create cluster => do return Ledger.enter (← Workspace.createCollection cluster).pointer
  | .createOwned session cluster owner => do
    return Ledger.enter (← Workspace.createOwned session cluster owner).1
  | .put c r value => plain (c.put r value)
  | .remove c r => plain (c.remove r)
  | .get c r => plain (c.get r)
  | .size c => plain c.size
  | .entries c => plain c.entries
  | .first c => plain c.first
  | .last c => plain c.last
  | .load p => plain (liftM (Store.loadCollection p) : Task Workspace CollectionError Collection)
  | .delete p => do
    Workspace.deleteCollection p
    return Ledger.strike p
  | .addCluster cluster => plain (Workspace.createCluster cluster)
  | .dropCluster cluster => do
    let dropped := (← Task.state).store.registry.storage? cluster
    Workspace.dropCluster cluster
    return fun l => dropped.elim l fun s => l.strikeFile s.tree.component.file
  | .hook label => plain (Workspace.onRollback (.step label))

section

variable {cluster : ClusterId} {w' : Workspace}

theorem create_gives {made : Collection} (h : (Workspace.createCollection cluster).Gives w made w') :
    (create cluster).run.Gives w (Ledger.enter made.pointer) w' := h.bind (.pure _ w')

theorem put_gives {c : Collection} {r : RecordRef} {value : Int32} {old : Option Int32}
    (h : (c.put r value).Gives w old w') : (put c r value).run.Gives w (fun l => l) w' := h.bind (.pure _ w')

theorem delete_gives {p : CollectionPointer} (h : (Workspace.deleteCollection p).Gives w () w') :
    (delete p).run.Gives w (Ledger.strike p) w' := h.bind (.pure _ w')

theorem addCluster_gives {id : StorageId} (h : (Workspace.createCluster cluster).Gives w id w') :
    (addCluster cluster).run.Gives w (fun l => l) w' := h.bind (.pure _ w')

end

/-- A new collection does not get an id past the largest one. -/
def HasRoom : Call → Workspace → Prop
  | .create cluster, w => w.HasRoom cluster
  | .createOwned _ cluster _, w => w.HasRoom cluster
  | _, _ => True

/-- How a call leaves the ledger and the count. -/
def Leaves (l : Ledger) (w : Workspace)
    (done : Checked CollectionError (Ledger → Ledger) × Workspace) : Prop :=
  w.counter ≤ done.2.counter ∧ (l.after done.1).Kept done.2.counter

theorem leaves_enter {t : Task Workspace CollectionError α} {pointer : α → CollectionPointer}
    (hk : l.Kept w.counter) (h : Advances (fun a => (pointer a).collection) w (t.start w)) :
    Leaves l w ((do return Ledger.enter (pointer (← t)) : Task _ _ _).start w) := by
  rw [Leaves, Task.start_bind]
  rcases hr : t.start w with ⟨cause | a, w'⟩ <;> rw [hr] at h
  · exact ⟨h.1, hk.mono h.1⟩
  · obtain ⟨hlt, hle⟩ := h.2 a rfl
    exact ⟨h.1, hk.enter hlt hle⟩

/-- A call that only strikes collections off the ledger. -/
theorem leaves_of_sublist {t : Task Workspace CollectionError (Ledger → Ledger)}
    (hk : l.Kept w.counter) (ht : ∀ c, Task.Keeps (At c) t)
    (hs : ∀ f w', t.Gives w f w' → (f l).Sublist l) : Leaves l w (t.start w) := by
  have hat := ht w.counter w rfl
  rcases hr : t.start w with ⟨cause | f, w'⟩ <;> rw [hr] at hat
  all_goals have hc : w'.counter = w.counter := hat
  · exact ⟨by rw [hc]; exact Int64.le_refl _, by rw [hc]; exact hk⟩
  · exact ⟨by rw [hc]; exact Int64.le_refl _, by rw [hc]; exact hk.sublist (hs f w' hr)⟩

theorem leaves_plain {t : Task Workspace CollectionError α} (hk : l.Kept w.counter)
    (ht : ∀ c, Task.Keeps (At c) t) : Leaves l w ((plain t).start w) := by
  refine leaves_of_sublist hk (fun c => (ht c).bind fun _ => .pure _) fun f w' h => ?_
  obtain ⟨a, w₁, -, h⟩ := Task.bind_gives h
  obtain ⟨rfl, -⟩ := Task.gives_pure h
  exact List.Sublist.refl l

theorem run_leaves (call : Call) (hk : l.Kept w.counter) (room : call.HasRoom w) :
    Leaves l w (call.run.start w) := by
  cases call with
  | create cluster =>
    exact leaves_enter hk (Workspace.createCollection_advances hk.nonneg room)
  | createOwned session cluster owner =>
    exact leaves_enter hk (Workspace.createOwned_advances hk.nonneg room)
  | put c r value => exact leaves_plain hk fun _ => At.lasting.put c r value
  | remove c r => exact leaves_plain hk fun _ => At.lasting.remove c r
  | get c r => exact leaves_plain hk fun _ => At.lasting.get c r
  | size c => exact leaves_plain hk fun _ => At.lasting.size c
  | entries c => exact leaves_plain hk fun _ => At.lasting.entries c
  | first c => exact leaves_plain hk fun _ => At.lasting.first c
  | last c => exact leaves_plain hk fun _ => At.lasting.last c
  | load p => exact leaves_plain hk fun _ => Workspace.keeps_store (Workspace.loadCollection_keeps p)
  | delete p =>
    refine leaves_of_sublist hk
      (fun _ => (At.lasting.deleteCollection p).bind fun _ => .pure _) fun f w' h => ?_
    obtain ⟨u, w₁, -, h⟩ := Task.bind_gives h
    rw [(Task.gives_pure h).1]
    exact List.filter_sublist
  | addCluster cluster => exact leaves_plain hk fun _ => Workspace.keeps_createCluster cluster
  | dropCluster cluster =>
    refine leaves_of_sublist hk (fun _ => Task.Keeps.state.bind fun _ =>
      (Workspace.keeps_dropCluster cluster).bind fun _ => .pure _) fun f w' h => ?_
    obtain ⟨w₀, w₁, -, h⟩ := Task.bind_gives h
    obtain ⟨u, w₂, -, h⟩ := Task.bind_gives h
    rw [(Task.gives_pure h).1]
    cases w₀.store.registry.storage? cluster with
    | none => exact List.Sublist.refl l
    | some s => exact List.filter_sublist
  | hook label => exact leaves_plain hk fun _ => Workspace.keeps_onRollback _

end Call

/-- The calls of an operation, whatever comes of each. -/
inductive Works (l₀ : Ledger) (w₀ : Workspace) : Ledger → Workspace → Prop where
  | nothing : Works l₀ w₀ l₀ w₀
  | call {l w} (before : Works l₀ w₀ l w) (call : Call) (room : call.HasRoom w) :
      Works l₀ w₀ (l.after (call.run.start w).1) (call.run.start w).2

theorem Works.kept {l₀ l : Ledger} {w₀ w : Workspace} (h : Works l₀ w₀ l w)
    (hk : l₀.Kept w₀.counter) : w₀.counter ≤ w.counter ∧ l.Kept w.counter := by
  induction h with
  | nothing => exact ⟨Int64.le_refl _, hk⟩
  | call before call room ih =>
    obtain ⟨hle, hkept⟩ := call.run_leaves ih.2 room
    exact ⟨Int64.le_trans ih.1 hle, hkept⟩

/-- A store and its collections after any number of operations and openings. An operation that fails,
or that cannot be committed, leaves the ledger as it was. -/
inductive Run (directory : Path) : Store → Ledger → Prop where
  | opened {settings disk disk' s report}
      (opening : Store.open settings directory disk = (.ok (s, report), disk')) : Run directory s []
  | committed {s l op e l' s'} (before : Run directory s l) (started : Engine.start.Gives s.engine op e)
      (t : Task Workspace CollectionError Unit)
      (works : Works l (.begun s e op) l' (t.start (.begun s e op)).2)
      (run : (Store.atomically t).Gives s () s') : Run directory s' l'
  | rolledBack {s l op e l' cause s'} (before : Run directory s l)
      (started : Engine.start.Gives s.engine op e) (t : Task Workspace CollectionError Unit)
      (works : Works l (.begun s e op) l' (t.start (.begun s e op)).2)
      (run : (Store.atomically t).start s = (.error cause, s')) : Run directory s' l
  | closed {s l} (before : Run directory s l) : Run directory (Store.close.start s).2 l
  | reopened {s l settings s' report disk} (before : Run directory s l)
      (opening : Store.open settings directory s.disk = (.ok (s', report), disk)) :
      Run directory s' (l.recount s'.registry.counter)

section

variable {s s' : Store} {w : Workspace} {directory : Path} {l : Ledger} {c : CollectionId}

theorem counter_undo (r : Registry) (steps : List Undo) :
    (steps.foldl Registry.undo r).counter = r.counter := by
  induction steps generalizing r with
  | nil => rfl
  | cons u steps ih =>
    rw [List.foldl_cons, ih]
    cases u <;> rfl

/-- The count stays as it is when an operation ends. -/
theorem counter_finish {α : Type} (result : Checked CollectionError α) (w : Workspace) :
    (w.finish result).2.registry.counter = w.counter := by
  cases result with
  | error cause => exact counter_undo _ _
  | ok a =>
    dsimp only [Workspace.finish]
    split
    · rfl
    · exact counter_undo _ _

theorem start_atomically {α : Type} {op : Operation} {e : Engine}
    (started : Engine.start.Gives s.engine op e) (t : Task Workspace CollectionError α) :
    (Store.atomically t).start s =
      (t.start (.begun s e op)).2.finish (t.start (.begun s e op)).1 := by
  have h : (liftM Engine.start : Task Store CollectionError Operation).Gives s op
    { s with engine := e } := started.inPart
  rw [Store.atomically, h.start_bind, Task.start_ofStep]
  rfl

/-- An operation answers what its task gave, once that is committed. -/
theorem finish_of_gives {α : Type} {op : Operation} {e : Engine} (started : Engine.start.Gives s.engine op e)
    {t : Task Workspace CollectionError α} {a : α} (run : (Store.atomically t).Gives s a s') :
    (t.start (.begun s e op)).1 = .ok a ∧ (t.start (.begun s e op)).2.finish (.ok a) = (.ok a, s') := by
  have hfinish := (start_atomically started t).symm.trans run.eq
  cases hresult : (t.start (.begun s e op)).1 with
  | error cause =>
    rw [hresult] at hfinish
    cases hfinish
  | ok b =>
    rw [hresult] at hfinish
    obtain rfl : b = a := by
      rw [Workspace.finish] at hfinish
      split at hfinish
      · cases hfinish
        rfl
      · cases hfinish
    exact ⟨rfl, hfinish⟩

theorem counter_atomically {α : Type} {op : Operation} {e : Engine}
    (started : Engine.start.Gives s.engine op e) (t : Task Workspace CollectionError α) :
    ((Store.atomically t).start s).2.registry.counter = (t.start (.begun s e op)).2.counter := by
  rw [start_atomically started]
  exact counter_finish _ _

theorem counter_close (s : Store) : (Store.close.start s).2.registry.counter = s.registry.counter := by
  have hk : Task.Keeps (fun s' => s'.registry.counter = s.registry.counter) Store.close := by
    refine Task.Keeps.bind (Task.Keeps.change fun _ h => h) fun _ => ?_
    exact Task.Keeps.mapError _ (Task.Keeps.onPart (fun _ _ h => h) _)
  exact hk s rfl

theorem mount_registry {path : Path} {pageSize poolPages : Nat} {syncs : Bool} {disk disk' : Disk}
    {report : RecoveryReport}
    (h : Store.mount path pageSize poolPages syncs disk = (.ok (s, report), disk')) :
    s.registry = .empty := by
  rw [Store.mount] at h
  split at h
  · cases h
  · split at h
    · cases h
    · cases h
      rfl

/-- To open a store, the settings are checked, the directory is mounted, and the clusters are loaded. -/
theorem open_cases {settings : Settings} {disk disk' : Disk} {report : RecoveryReport}
    (h : Store.open settings directory disk = (.ok (s, report), disk')) :
    settings.validate = .ok () ∧ ∃ s₀ d found,
      Store.mount directory settings.pageSize settings.poolPages settings.syncOnCommit disk = (.ok (s₀, report), d) ∧
      Store.loadExisting.Gives s₀ found s := by
  rw [Store.open] at h
  split at h
  · cases h
  · next valid =>
    split at h
    · cases h
    · next hmount =>
      split at h
      · cases h
      · next hload =>
        cases h
        exact ⟨valid, _, _, _, hmount, hload⟩

theorem nonneg_of_keeps {α : Type} {t : Task Store CollectionError α}
    (ht : ∀ c, Task.Keeps (fun s => s.registry.counter = c) t) :
    Task.Keeps (fun s => 0 ≤ s.registry.counter) t := fun s hs => by
  have hc : (t.start s).2.registry.counter = s.registry.counter := ht _ s rfl
  show 0 ≤ (t.start s).2.registry.counter
  rw [hc]
  exact hs

theorem nonneg_advanceCounter (cluster : ClusterId) :
    Task.Keeps (fun s => 0 ≤ s.registry.counter) (Store.advanceCounter cluster) := by
  refine Task.Keeps.state.bind fun s => ?_
  split
  · refine (nonneg_of_keeps fun c => Workspace.view_keeps (Workspace.keeps_onTree _)).bind fun key => ?_
    split
    · refine Task.Keeps.change fun s hs => ?_
      dsimp only [max, maxOfLe]
      split
      · next hle => exact Int64.le_trans hs hle
      · exact hs
    · exact .pure ()
  · exact .pure ()

/-- Loading the clusters of a store only raises the count. -/
theorem nonneg_loadExisting :
    Task.Keeps (fun s => 0 ≤ s.registry.counter) Store.loadExisting :=
  Workspace.loadExisting_keeps (fun _ => nonneg_of_keeps fun _ => Workspace.keeps_loadCluster _) nonneg_advanceCounter

theorem nonneg_open {settings : Settings} {disk disk' : Disk} {report : RecoveryReport}
    (h : Store.open settings directory disk = (.ok (s, report), disk')) : 0 ≤ s.registry.counter := by
  obtain ⟨-, s₀, _, found, hmount, hload⟩ := open_cases h
  refine nonneg_loadExisting.gives hload ?_
  rw [mount_registry hmount]
  exact Int64.le_refl _

theorem Run.kept (run : Run directory s l) : l.Kept s.registry.counter := by
  induction run with
  | opened opening => exact .nil (nonneg_open opening)
  | committed before started t works run ih =>
    have hc := counter_atomically started t
    rw [run.eq] at hc
    rw [hc]
    exact (works.kept ih).2
  | rolledBack before started t works run ih =>
    have hc := counter_atomically started t
    rw [run] at hc
    rw [hc]
    exact ih.mono (works.kept ih).1
  | closed before ih => exact counter_close _ ▸ ih
  | reopened before opening ih => exact ih.recount (nonneg_open opening)

/-- A collection has an id that no younger one has, unless the store was opened again in its life on a
count below its id. -/
theorem Run.ids_apart (run : Run directory s l) :
    l.Pairwise fun m m' => m.counted → m.pointer.file = m'.pointer.file →
      m.pointer.collection ≠ m'.pointer.collection :=
  run.kept.apart.imp fun h hc _ => h hc

end

end RefStore.Collection
