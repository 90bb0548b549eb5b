import RefStore.Proofs.HostedCalls
import RefStore.Proofs.Twins

/-!
# Stores with files of clusters only

Between operations the registered files of a store are filled as their names say, with trees and size
maps, and its storages are made of such files. Operations on collections and views keep it so. What an
operation has shown of a collection before its commit is shown after it. Main statements:
`Houses.committed`, `Houses.rolledBack`, `Houses.view`.
-/

namespace RefStore

variable {α : Type} {dir : Path} {place : Location} {size n n' : Nat} {s s' : Stock} {m m' m₀ : Mounted}
  {op : Operation} {e : Engine} {st st' : Store} {w : Workspace}

theorem Settings.poolPages_pos {settings : Settings} (h : settings.validate = .ok ()) : 0 < settings.poolPages :=
  (validate_eq_ok_iff.mp h).2.2.2

/-! ## Stocks -/

/-- Every registered file is filled as its name says. -/
def Stock.Furnished (size n : Nat) (s : Stock) : Prop :=
  ∀ {f x}, s.names f = some x → Cluster.Fills size n x (s.pages f)

theorem Stock.Furnished.mono (h : s.Furnished size n) (hn : n ≤ n') : s.Furnished size n' :=
  fun hx => (h hx).mono hn

namespace Transaction

/-- An operation that has just begun finds what is committed. -/
theorem finds_begun (hs : m.Serves size s) (hl : m.Loaded s) {f : FileId} {x : String} {P : List Page → Prop}
    (hx : s.names f = some x) (hP : P (s.pages f)) (id : OperationId) :
    Finds ⟨m, .fresh id⟩ f (s.held f) P := by
  have hresident := hl.resident hs hx
  obtain ⟨_, _, _, hfile⟩ := hs.file hx
  have hheld : s.held f = s.pages f := by rw [Stock.held, hx]; rfl
  refine ⟨s.pages f, ⟨.inr (hheld ▸ hresident), ?_⟩, hP⟩
  rw [hs.pageSize, hheld]
  exact .fresh id f hresident.length_lt hfile.sizes

theorem sees_fresh {f : FileId} {x : String} {id : OperationId} :
    (Operation.fresh id).Sees s f x ↔ s.names f = some x := by
  simp [Operation.Sees, Operation.fresh]

theorem carries_fresh {f : FileId} {x : String} {id : OperationId} :
    (Operation.fresh id).Carries s f x ↔ s.names f = some x := by
  simp [Operation.Carries, Operation.fresh]

theorem Hosts.begun {storages : List ClusterStorage} (hs : m.Serves size s) (hl : m.Loaded s)
    (hample : Tree.Ample size) (hf : s.Furnished size n)
    (hst : ∀ x ∈ storages, x.Housed (fun f y => s.names f = some y) m.volume.catalog.nextId) (id : OperationId) :
    Hosts size s n storages ⟨m, .fresh id⟩ where
  ready := .begun hs hl id
  ample := hample
  drafted f hd := by simp [Operation.fresh] at hd
  filled hx := finds_begun hs hl (sees_fresh.mp hx) (hf (sees_fresh.mp hx)) id
  housed x hx := (hst x hx).mono (UInt32.le_refl _) fun _ _ _ hc => carries_fresh.mp hc

/-- All operations that have just begun see the same. -/
theorem exists_holds_begun {β : Type} {kind : β → List Page → Prop} (hs : m.Serves size s) (hl : m.Loaded s)
    {f : FileId} (hkind : ∀ x, s.names f = some x → ∃ a, kind a (s.pages f)) :
    ∃ o, ∀ id, Holds kind s ⟨m, .fresh id⟩ f o := by
  cases hx : s.names f with
  | none =>
    refine ⟨none, fun id x hsees => ?_⟩
    rw [sees_fresh, hx] at hsees
    cases hsees
  | some x =>
    obtain ⟨a, ha⟩ := hkind x hx
    exact ⟨some a, fun id => ⟨⟨x, sees_fresh.mpr hx⟩, finds_begun hs hl hx ha id⟩⟩

theorem alike_begun (hs : m.Serves size s) (hl : m.Loaded s) (hample : Tree.Ample size)
    (hf : s.Furnished size n) {b : ClusterStorage} {next : FileId}
    (hb : b.Housed (fun f y => s.names f = some y) next) (c : CollectionId) (slot : SlotId) (id id' : OperationId) :
    b.Alike c slot ⟨m, .fresh id⟩ ⟨m, .fresh id'⟩ := by
  obtain ⟨o, ho⟩ : ∃ o, ∀ id, Holds (fun es => Tree.Written size es n) s ⟨m, .fresh id⟩ b.treeFile o :=
    exists_holds_begun hs hl fun x hx =>
      (hb.tree x hx ▸ hf hx : Cluster.Fills size n (Cluster.treeName b.cluster) _).tree
  obtain ⟨q, hq⟩ : ∃ q, ∀ id, Holds (SizeMap.Written size) s ⟨m, .fresh id⟩ b.sizesFile q :=
    exists_holds_begun hs hl fun x hx =>
      (hb.sizes x hx ▸ hf hx : Cluster.Fills size n (Cluster.sizesName b.cluster) _).sizes
  have hover (id : OperationId) : Transaction.Over size s ⟨m, .fresh id⟩ := .begun hs id
  obtain ⟨hatt, hatt'⟩ := hb.attached
  constructor
  · rw [Tree.reading_eq hatt hample (hover id') (ho id') c, Tree.reading_eq hatt hample (hover id) (ho id) c]
  · rw [SizeMap.count_eq hatt' hample (hover id') (hq id') slot, SizeMap.count_eq hatt' hample (hover id) (hq id) slot]

end Transaction

namespace Operation.Complete

variable {t : Stock} {u : Transaction} {storages : List ClusterStorage}

/-- A whole operation leaves the pages that it has made of a file, but for their seals. -/
theorem pages_alike (h : op.Complete size s t) (hop : op.Over size s) (hs : m.Serves size t) {f : FileId} {x : String}
    (hsees : op.Sees s f x) {pages : List Page} (hp : op.Drafts f size (s.held f) pages) :
    t.names f = some x ∧ List.Forall₂ Page.Alike pages (t.pages f) := by
  have hx := (h.names_iff hop (by simp) (by simp)).mpr hsees
  obtain ⟨_, _, _, hfile⟩ := hs.file hx
  exact ⟨hx, Staged.all hp hs.room (h.pages f x hsees hx) hfile.length_lt⟩

theorem furnished (h : u.operation.Complete size s t) (hu : u.Hosts size s n storages) (hs : m.Serves size t) :
    t.Furnished size n := by
  intro f x hx
  have hop := hu.ready.based.operation
  have hsees := (h.names_iff hop (by simp) (by simp)).mp hx
  obtain ⟨pages, hp, hfill⟩ := hu.filled hsees
  have hdrafts := hu.ready.pageSize ▸ hp.drafts
  exact hfill.alike hu.ample _ _ (h.pages_alike hop hs hsees hdrafts).2 hdrafts.sizes

/-- An operation that begins after it holds what it has held. -/
theorem holds {β : Type} {kind : β → List Page → Prop} (hkind : ∀ a ps qs, List.Forall₂ Page.Alike ps qs →
      (∀ p ∈ ps, p.size = size) → kind a ps → kind a qs)
    (h : u.operation.Complete size s t) (hu : u.Hosts size s n storages) (hs : m.Serves size t) (hl : m.Loaded t)
    {f : FileId} {o : Option β} (ho : u.Holds kind s f o) (id : OperationId) :
    Transaction.Holds kind t ⟨m, .fresh id⟩ f o := by
  have hop := hu.ready.based.operation
  cases o with
  | none =>
    intro x hx
    exact ho x ((h.names_iff hop (by simp) (by simp)).mp (Transaction.sees_fresh.mp hx))
  | some a =>
    obtain ⟨⟨x, hsees⟩, pages, hp, ha⟩ := ho
    have hdrafts := hu.ready.pageSize ▸ hp.drafts
    obtain ⟨hx, halike⟩ := h.pages_alike hop hs hsees hdrafts
    exact ⟨⟨x, Transaction.sees_fresh.mpr hx⟩,
      Transaction.finds_begun hs hl hx (hkind a _ _ halike hdrafts.sizes ha) id⟩

/-- What a storage has shown in an operation it shows after it. -/
theorem alike (h : u.operation.Complete size s t) (hu : u.Hosts size s n storages) (hs : m.Serves size t)
    (hl : m.Loaded t) {b : ClusterStorage} (hb : b ∈ storages) (c : CollectionId) (slot : SlotId)
    (id : OperationId) : b.Alike c slot u ⟨m, .fresh id⟩ := by
  have hover : Transaction.Over size t ⟨m, .fresh id⟩ := .begun hs id
  obtain ⟨hatt, hatt'⟩ := (hu.housed b hb).attached
  obtain ⟨o, ho⟩ := hu.tree hb
  obtain ⟨q, hq⟩ := hu.sizes hb
  have ho' := h.holds (fun _ => Tree.Written.alike hu.ample) hu hs hl ho id
  have hq' := h.holds (fun _ => SizeMap.Written.alike hu.ample) hu hs hl hq id
  constructor
  · rw [Tree.reading_eq hatt hu.ample hover ho' c, Tree.reading_eq hatt hu.ample hu.ready.based ho c]
  · rw [SizeMap.count_eq hatt' hu.ample hover hq' slot, SizeMap.count_eq hatt' hu.ample hu.ready.based hq slot]

end Operation.Complete

/-! ## Stores -/

/-- A workspace on another volume. -/
def Workspace.on (w : Workspace) (m : Mounted) : Workspace :=
  { w with store := { w.store with engine := { w.store.engine with mounted := m } } }

/-- A store between operations whose files are those of clusters. -/
structure Store.Houses (dir : Path) (place : Location) (size : Nat) (s : Stock) (n : Nat) (st : Store) :
    Prop where
  rests : st.engine.Rests dir place size s
  sealed : s.Sealed
  ample : Tree.Ample size
  furnished : s.Furnished size n
  housed : ∀ x ∈ st.registry.storages,
    x.Housed (fun f y => s.names f = some y) st.engine.mounted.volume.catalog.nextId

/-- What a collection answers does not depend on the pages that are in memory. -/
theorem Collection.Asks.start_on {c : Collection} {t : Task Workspace CollectionError α} (h : c.Asks t)
    (hm : w.store.engine.mounted.Twin m) : (t.start w).1 = (t.start (w.on m)).1 := by
  have hbeside : Workspace.Beside Mounted.Twin w.store.engine.journal w (w.on m) :=
    ⟨⟨hm, ⟨rfl, rfl⟩, rfl⟩, rfl, rfl⟩
  exact (h.agrees Mounted.Twin.serveAlike.toReadAlike _ _ hbeside).1

/-- A workspace that could as well be on a volume with all pages in memory. The files beneath it are
those that its operation began with. -/
structure Workspace.Backed (m₀ : Mounted) (j : Journal) (size : Nat) (s : Stock) (n : Nat) (w : Workspace) :
    Prop where
  unchanged : m₀.Unchanged w.store.engine.mounted
  journal : w.store.engine.journal = j
  twin : ∃ m, w.store.engine.mounted.Twin m ∧ (w.on m).Hosts size s n

namespace Workspace.Backed

variable {j : Journal}

theorem beside (h : w.Backed m₀ j size s n) (hm : w.store.engine.mounted.Twin m) :
    Workspace.Beside (fun m m' => m₀.Unchanged m ∧ m.Twin m') j w (w.on m) :=
  ⟨⟨⟨h.unchanged, hm⟩, ⟨h.journal, h.journal⟩, rfl⟩, rfl, rfl⟩

/-- What a task does to the workspace on the other volume it does to this one. -/
theorem transfer {t : Task Workspace CollectionError α} (h : w.Backed m₀ j size s n)
    (ht : t.Agrees (Workspace.Beside (fun m m' => m₀.Unchanged m ∧ m.Twin m') j))
    (hm : w.store.engine.mounted.Twin m) (hosts : (t.start (w.on m)).2.Hosts size s n') :
    (t.start w).2.Backed m₀ j size s n' := by
  obtain ⟨-, hbeside⟩ := ht _ _ (h.beside hm)
  refine ⟨hbeside.store.mounted.1, hbeside.store.journal.1, _, hbeside.store.mounted.2, ?_⟩
  generalize (t.start w).2 = w' at hbeside
  generalize (t.start (w.on m)).2 = u' at hbeside hosts
  obtain ⟨⟨-, -, hr⟩, ho, -⟩ := hbeside
  rw [Hosts] at hosts ⊢
  show Transaction.Hosts size s n' w'.store.registry.storages ⟨u'.store.engine.mounted, w'.operation⟩
  rw [hr, ho]
  exact hosts

end Workspace.Backed

namespace Store.Houses

theorem serves (h : st.Houses dir place size s n) : st.engine.mounted.Serves size s :=
  h.rests.mirrors.serves (Nat.le_trans (by decide) h.ample.1)

/-- The volume has a twin with all pages in memory, over which an operation begins. -/
theorem exists_hosts (h : st.Houses dir place size s n) (id : OperationId) : ∃ m,
    st.engine.mounted.Twin m ∧ m.Serves size s ∧ m.Loaded s ∧
      Transaction.Hosts size s n st.registry.storages ⟨m, .fresh id⟩ := by
  obtain ⟨m, hm, hs, hl⟩ := h.serves.exists_loaded h.sealed
  exact ⟨m, hm, hs, hl, .begun hs hl h.ample h.furnished (hm.nextId.symm ▸ h.housed) id⟩

theorem backed (h : st.Houses dir place size s n) (started : Engine.start.Gives st.engine op e) :
    (Workspace.begun st e op).Backed st.engine.mounted e.journal size s n := by
  obtain ⟨-, rfl, rfl⟩ := Engine.start_eq started
  obtain ⟨m, hm, -, -, hosts⟩ := h.exists_hosts _
  exact ⟨.refl _, rfl, m, hm, hosts⟩

/-- Collections answer in an operation that begins as they do in a view before it. -/
theorem asked_begun (h : st.Houses dir place size s n) (started : Engine.start.Gives st.engine op e)
    {c : Collection} {t : Task Workspace CollectionError α} (ht : c.Asks t) :
    (t.start (.begun st e op)).1 = (t.start ⟨st, .none, []⟩).1 := by
  obtain ⟨-, rfl, rfl⟩ := Engine.start_eq started
  obtain ⟨m, hm, hs, hl, -⟩ := h.exists_hosts 0
  refine (ht.start_on hm).trans (Eq.trans ?_ (ht.start_on (w := ⟨st, .none, []⟩) hm).symm)
  exact ht.start_eq rfl fun b hb _ => Transaction.alike_begun hs hl h.ample h.furnished (h.housed b hb) _ _ _ _

section

variable (h : st.Houses dir place size s n) (started : Engine.start.Gives st.engine op e)
  (hb : w.Backed st.engine.mounted e.journal size s n')

include h started hb

/-- In an operation the disk is as it was before. -/
theorem rests_backed : w.store.engine.Rests dir place size s := by
  obtain ⟨-, -, rfl⟩ := Engine.start_eq started
  obtain ⟨m, hm, hosts⟩ := hb.twin
  refine ⟨.of_twin h.rests.mirrors hb.unchanged hm hosts.ready.based.serves, ?_, h.rests.empty, ?_⟩
  · rw [hb.journal]
    exact h.rests.node
  · rw [hb.unchanged.disk]
    exact h.rests.live

/-- After an operation that was given up the store has the files that it had. -/
theorem rolledBack (hn : n ≤ n') : w.rollback.Houses dir place size s n' := by
  obtain ⟨m, hm, hosts⟩ := hb.twin
  refine ⟨h.rests_backed started hb, h.sealed, h.ample, Stock.Furnished.mono h.furnished hn, fun x hx => ?_⟩
  rw [show w.rollback.registry.storages = w.store.registry.storages from Registry.storages_undo _ _] at hx
  exact (hosts.housed x hx).mono (hm.nextId ▸ UInt32.le_refl _) fun _ _ _ hc => .inr hc

/-- After a commit it has those of the operation. Collections answer as they did at its end. -/
theorem committed (hdir : dir.Roomy) (storable : w.operation.Storable size) {a : α} {r : Checked CollectionError α}
    (hf : w.finish (.ok a) = (r, st')) : r = .ok a ∧ st'.engine.journal.broken = false ∧
      ∃ s', st'.Houses dir place size s' n' ∧ ∀ {β : Type} {c : Collection} {t : Task Workspace CollectionError β},
        c.Asks t → (t.start ⟨st', .none, []⟩).1 = (t.start w).1 := by
  have hs : 8 ≤ size := Nat.le_trans (by decide) h.ample.1
  obtain ⟨m, hm, hosts⟩ := hb.twin
  have hop : w.operation.Over size s := hosts.ready.based.operation
  obtain ⟨e', s', hgives, hrests, hc, hjournal⟩ :=
    (h.rests_backed started hb).commit_gives hop hs (storable.fits hdir) hosts.drafted storable.logged
  rw [Workspace.finish, hgives.eq] at hf
  obtain ⟨rfl, rfl⟩ := Prod.mk.inj hf
  have hserves := hrests.mirrors.serves hs
  have hsealed : s'.Sealed := hc.sealed hop hs hrests.mirrors.stocks h.sealed
  have hnext : m.volume.catalog.nextId ≤ e'.mounted.volume.catalog.nextId :=
    hm.nextId ▸ Engine.commit_next hgives
  have hhouses : Store.Houses dir place size s' n' { w.store with engine := e' } := by
    refine ⟨hrests, hsealed, h.ample, hc.furnished hosts hserves, fun x hx => ?_⟩
    refine (hosts.housed x hx).mono hnext fun f _ y hy => ?_
    exact ((hc.names_iff hop (by simp) (by simp)).mp hy).carries
  refine ⟨rfl, ?_, s', hhouses, fun {β c t} ht => ?_⟩
  · obtain ⟨hbroken, -, rfl⟩ := Engine.start_eq started
    show e'.journal.broken = false
    rw [hjournal, hb.journal]
    exact hbroken
  · -- both are told on the volumes with all pages in memory
    obtain ⟨m', hm', hs', hl'⟩ := hserves.exists_loaded hsealed
    rw [ht.start_on hm, ht.start_on (w := ⟨{ w.store with engine := e' }, .none, []⟩) hm']
    exact ht.start_eq rfl fun b hmem _ => hc.alike hosts hs' hl' hmem _ _ 0

end

/-! ### What leaves the files as they are -/

/-- It matters little which pages are in memory and what else is registered. -/
theorem later (h : st.Houses dir place size s n) (ht : st.engine.mounted.Twin st'.engine.mounted)
    (hj : st'.engine.journal = st.engine.journal) (hst : ∀ x ∈ st'.registry.storages,
      x.Housed (fun f y => s.names f = some y) st.engine.mounted.volume.catalog.nextId) :
    st'.Houses dir place size s n := by
  obtain ⟨m, hm, hs, -⟩ := h.serves.exists_loaded h.sealed
  refine ⟨⟨.of_twin h.rests.mirrors ht.unchanged (ht.symm.trans hm) hs, hj ▸ h.rests.node, h.rests.empty, ?_⟩,
    h.sealed, h.ample, h.furnished, ht.nextId ▸ hst⟩
  rw [ht.unchanged.disk]
  exact h.rests.live

theorem registry (h : st.Houses dir place size s n) {f : Registry → Registry}
    (hf : (f st.registry).storages = st.registry.storages) :
    Store.Houses dir place size s n { st with registry := f st.registry } :=
  h.later (.refl _) rfl fun x hx => h.housed x (hf ▸ hx)

/-- A view at most loads pages. -/
theorem view_beside {t : Task Workspace CollectionError α}
    (ht : t.Agrees (Workspace.Beside (fun m n => m = n ∧ st.engine.mounted.Twin m) st.engine.journal))
    (hr : t.Keeps fun w => w.store.registry = st.registry) :
    st.Beside Mounted.Twin st.engine.journal ((Store.view t).start st).2 := by
  obtain ⟨-, hb⟩ := view_agrees ht st st ⟨⟨rfl, .refl _⟩, ⟨rfl, rfl⟩, rfl⟩
  have hregistry := Workspace.view_keeps (P := fun st' => st'.registry = st.registry) hr st rfl
  exact ⟨hb.mounted.2, ⟨rfl, hb.journal.1⟩, hregistry.symm⟩

theorem view (h : st.Houses dir place size s n) {t : Task Workspace CollectionError α}
    (ht : t.Agrees (Workspace.Beside (fun m n => m = n ∧ st.engine.mounted.Twin m) st.engine.journal))
    (hr : t.Keeps fun w => w.store.registry = st.registry) :
    ((Store.view t).start st).2.Houses dir place size s n := by
  have hb := view_beside ht hr
  exact h.later hb.mounted hb.journal.2 (hb.registry ▸ h.housed)

/-- Loading the files of a cluster does not read them. -/
theorem loadCluster (h : st.Houses dir place size s n) (cluster : ClusterId) :
    ((Store.loadCluster cluster).start st).2.Houses dir place size s n := by
  obtain ⟨m, hm, -, -, hosts⟩ := h.exists_hosts 0
  obtain ⟨-, hb⟩ := loadCluster_agrees Mounted.Twin.serveAlike.toReadAlike (j := st.engine.journal) cluster st
    { st with engine := { st.engine with mounted := m } } ⟨hm, ⟨rfl, rfl⟩, rfl⟩
  have hloaded : Workspace.Hosts size s n
      ⟨((Store.loadCluster cluster).start { st with engine := { st.engine with mounted := m } }).2, .fresh 0, []⟩ :=
    Workspace.loadCluster_keeps cluster _ hosts
  have hengine := Workspace.loadCluster_keeps_engine cluster st.engine st rfl
  have hengine' := Workspace.loadCluster_keeps_engine cluster { st.engine with mounted := m }
    { st with engine := { st.engine with mounted := m } } rfl
  generalize (Store.loadCluster cluster).start st = r at hb hengine ⊢
  generalize (Store.loadCluster cluster).start { st with engine := { st.engine with mounted := m } } = r'
    at hb hloaded hengine'
  refine h.later (hengine ▸ .refl _) (hengine ▸ rfl) fun x hx => ?_
  have hx' := hloaded.housed x (hb.registry ▸ hx)
  rw [show (Part.get (⟨r'.2, .fresh 0, []⟩ : Workspace) : Transaction).mounted = m from
    congrArg Engine.mounted hengine', hm.nextId] at hx'
  exact hx'.mono (UInt32.le_refl _) fun f _ y hy => Transaction.carries_fresh.mpr hy

/-- To count on from the ids of a cluster only reads its tree. -/
theorem advanceCounter_keeps (cluster : ClusterId) :
    (advanceCounter cluster).Keeps (Store.Houses dir place size s n) := by
  have hcount (c : CollectionId) : (changeRegistry fun r => { r with counter := max r.counter c }).Keeps
      (Store.Houses dir place size s n) :=
    .change fun st h => Houses.registry h (f := fun r => { r with counter := _ }) rfl
  refine .bind .state fun st₀ => ?_
  split
  · refine .bind (fun st h => h.view ?_ (.onPart (fun _ _ h => h) _)) fun key => ?_
    · exact Workspace.onTree_agrees (Tree.lastKey_agrees (Mounted.Twin.readAlike_from _) _)
    · split
      · exact hcount _
      · exact .pure _
  · exact .pure _

/-- To load the clusters that a store has changes no file. -/
theorem loadExisting_keeps : Store.loadExisting.Keeps (Store.Houses dir place size s n) :=
  Workspace.loadExisting_keeps (fun c _ h => h.loadCluster c) advanceCounter_keeps

/-! ### Opening -/

/-- A store that was mounted has nothing registered yet. -/
theorem mounted {poolPages : Nat} {syncs : Bool} {disk disk' : Disk} {report : RecoveryReport}
    (hm : mount dir size poolPages syncs disk = (.ok (st, report), disk'))
    (rests : st.engine.Rests dir place size s) (sealed : s.Sealed) (ample : Tree.Ample size)
    (furnished : s.Furnished size n) : st.Houses dir place size s n := by
  refine ⟨rests, sealed, ample, furnished, ?_⟩
  rw [Collection.mount_registry hm]
  exact nofun

/-- A store that is opened on files of clusters has them. -/
theorem opened {settings : Settings} {disk disk' : Disk} {report : RecoveryReport} (hsize : settings.pageSize = size)
    (ho : Store.open settings dir disk = (.ok (st, report), disk'))
    (hm : ∀ {st₀ : Store} {report : RecoveryReport} {disk₀ : Disk}, Tree.Ample size → 0 < settings.poolPages →
      mount dir size settings.poolPages settings.syncOnCommit disk = (.ok (st₀, report), disk₀) →
      ∃ place s, st₀.engine.Rests dir place size s ∧ s.Sealed ∧ s.Furnished size n) :
    ∃ place s, st.Houses dir place size s n := by
  obtain rfl := hsize
  obtain ⟨valid, st₀, _, found, hmount, hload⟩ := Collection.open_cases ho
  have hample := Tree.Ample.ofSettings valid
  obtain ⟨place, s, hrests, hsealed, hf⟩ := hm hample (Settings.poolPages_pos valid) hmount
  exact ⟨place, s, loadExisting_keeps.gives hload (mounted hmount hrests hsealed hample hf)⟩

/-- What is mounted on its files has nothing to recover. -/
theorem recovers (h : st.Houses dir place size s n) (hdir : dir.Roomy) {d : Disk} (hd : d.Stocks dir place size s) :
    Recovers dir place size (Disk.Stocks dir place size s) (· = s) d :=
  recovers_of_run hd (Nat.lt_of_lt_of_le (by decide) h.ample.1) hdir.fits_catalog hdir.fits_log
    fun m log hm hnode => ⟨_, m, s, Recovery.run_idle hm hnode h.rests.empty, hm, h.rests.empty, rfl,
      hm.stocks.restart, rfl⟩

section

variable {st₀ : Store} {d disk₀ : Disk} {report : RecoveryReport} {poolPages : Nat} {syncs : Bool}

/-- Mounting its files, after any number of openings that were cut off, finds what it has. -/
theorem mounted_again (h : st.Houses dir place size s n) (hdir : dir.Roomy) (hd : Reopens dir size st.disk d)
    (hpool : 0 < poolPages) (hmount : mount dir size poolPages syncs d = (.ok (st₀, report), disk₀)) :
    ∃ place s', st₀.engine.Rests dir place size s' ∧ s'.Sealed ∧ s'.Furnished size n := by
  have hrecovers := h.recovers hdir (hd.keeps h.rests.mirrors.stocks fun _ => h.recovers hdir)
  obtain ⟨_, _, t, hmount', hrests, rfl⟩ := hrecovers.gives syncs hpool (hd.live h.rests.live)
  rw [hmount'] at hmount
  cases hmount
  exact ⟨place, _, hrests, h.sealed, h.furnished⟩

/-- So does mounting them after a commit that an outage cut off. -/
theorem mounted_crashed (h : st.Houses dir place size s n) (started : Engine.start.Gives st.engine op e)
    (hb : w.Backed st.engine.mounted e.journal size s n') (hn : n ≤ n') (hdir : dir.Roomy)
    (storable : w.operation.Storable size) {o : Option Outage}
    (hd : Reopens dir size (w.store.engine.crashed w.operation o) d) (hpool : 0 < poolPages)
    (hmount : mount dir size poolPages syncs d = (.ok (st₀, report), disk₀)) :
    ∃ place s', st₀.engine.Rests dir place size s' ∧ s'.Sealed ∧ s'.Furnished size n' := by
  have hs : 8 ≤ size := Nat.le_trans (by decide) h.ample.1
  obtain ⟨m, -, hosts⟩ := hb.twin
  have hop : w.operation.Over size s := hosts.ready.based.operation
  obtain ⟨keep, goal, hrecovers, hends⟩ :=
    (h.rests_backed started hb).recovers hs h.ample.2 hop hosts.drafted hdir storable hd
  obtain ⟨_, _, t, hmount', hrests, hgoal⟩ := hrecovers.gives syncs hpool (hd.live rfl)
  rw [hmount'] at hmount
  cases hmount
  refine ⟨place, t, hrests, ?_⟩
  rcases hends t hgoal with ⟨-, hc⟩ | ⟨-, rfl⟩
  · exact ⟨hc.sealed hop hs hrests.mirrors.stocks h.sealed, hc.furnished hosts (hrests.mirrors.serves hs)⟩
  · exact ⟨h.sealed, Stock.Furnished.mono h.furnished hn⟩

end

/-- To close a store writes nothing. -/
theorem disk_close (h : st.Houses dir place size s n) : (close.start st).2.disk = st.disk := by
  have hsync (node : Nat) : (Disk.sync node).Keeps (· = st.disk) := by
    rintro _ rfl
    rw [Disk.sync, Disk.perform, Task.start_ofStep, show st.disk.outage = none from h.rests.live]
    rfl
  have hopen (id : FileId) : (Mounted.openFile id).Keeps fun m => m.disk = st.disk := by
    refine .bind .state fun m => ?_
    split
    · exact .pure _
    · exact .refuse _
  have hall : Mounted.close.Keeps fun m => m.disk = st.disk := by
    refine .bind (.bind .state fun m => .forM fun id _ => .bind (hopen id) fun f => ?_) fun _ => .change fun _ h => h
    exact fun m hm => hsync f.file.node m.disk hm
  have hstore : (liftM Mounted.close : Task Store StorageError Unit).Keeps fun st' => st'.disk = st.disk :=
    fun st' hst' => hall st'.engine.mounted hst'
  have hclose : close.Keeps fun st' => st'.disk = st.disk :=
    .bind (.change fun _ h => h) fun _ => .mapError StoreError.storage hstore
  exact hclose st rfl

end Store.Houses

end RefStore
