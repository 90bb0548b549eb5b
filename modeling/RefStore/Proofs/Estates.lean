import RefStore.Proofs.Deeds
import RefStore.Proofs.Maps
import RefStore.Proofs.SameAnswers

/-!
# What lasts from one opening to the next

The estate of a store is told by the calls of its committed operations: the clusters that they made and
did not drop, and the pointers to the collections that they made in these. A store that is opened again
has its estate, and so does one that gave an operation up. Main statements: `Estate.Stands.call`,
`Store.Built.registers`, `Store.Built.commits`.
-/

namespace RefStore

open Workspace (Accounted)

variable {α : Type} {dir : Path} {place : Location} {size n k : Nat} {s : Stock} {st st' : Store} {op : Operation}
  {e : Engine} {w w' w₀ : Workspace} {r r' r₀ : Registry} {c : ClusterId} {p : CollectionPointer}

/-- The clusters that are there, and the collections that were made in them. -/
structure Estate where
  clusters : List ClusterId
  pointers : List CollectionPointer
  deriving DecidableEq, Repr

namespace Estate

def empty : Estate := ⟨[], []⟩

def found (c : ClusterId) (E : Estate) : Estate := { E with clusters := c :: E.clusters }

def enter (p : CollectionPointer) (E : Estate) : Estate := { E with pointers := p :: E.pointers }

/-- With a cluster go its collections. -/
def drop (c : ClusterId) (E : Estate) : Estate :=
  ⟨E.clusters.filter fun d => d ≠ c, E.pointers.filter fun p => p.cluster ≠ c⟩

/-- What fails changes nothing. -/
def upon (E : Estate) (result : Checked CollectionError α) (f : α → Estate → Estate) : Estate :=
  match result with
  | .ok a => f a E
  | .error _ => E

/-- What a call that is made in a workspace does. A collection is made in the storage of its cluster, which
is made with it if it is not there, and stays when the collection cannot be made. -/
def after (E : Estate) (w : Workspace) : Collection.Call → Estate
  | .create c => (E.upon ((Workspace.clusterStorage c).start w).1 fun _ => found c).upon
      ((Workspace.createCollection c).start w).1 fun a => enter a.pointer
  | .createOwned session c owner => (E.upon ((Workspace.clusterStorage c).start w).1 fun _ => found c).upon
      ((Workspace.createOwned session c owner).start w).1 fun a => enter a.1
  | .addCluster c => E.upon ((Workspace.createCluster c).start w).1 fun _ => found c
  | .dropCluster c => E.upon ((Workspace.dropCluster c).start w).1 fun _ => drop c
  | _ => E

end Estate

/-! ## What calls register -/

/-- A cluster is registered with the file of a storage, and none is lost. -/
structure Registry.Founds (c : ClusterId) (id : StorageId) (r r' : Registry) : Prop where
  kept : ∀ {d : ClusterId} {f : FileId}, r.clusters[d]? = some f → r'.clusters[d]? = some f
  only : ∀ {d : ClusterId}, d ∈ r'.clusters ↔ d = c ∨ d ∈ r.clusters
  storage : ∃ b, r'.storages[id]? = some b ∧ r'.clusters[c]? = some b.treeFile

namespace Workspace

/-- What is done to trees and size maps registers nothing. -/
theorem part_registry {ε : Type} (t : Task Transaction ε α) (f : ε → CollectionError)
    (hw : w.store.registry = r) : (Task.onPart (t.mapError f) : Task Workspace CollectionError α).Ends w
      (fun _ w' => w'.store.registry = r) fun _ w' => w'.store.registry = r := by
  have hkeeps : (Task.onPart (t.mapError f) : Task Workspace CollectionError α).Keeps fun w => w.store.registry = r :=
    .onPart (fun _ _ h => h) _
  exact hkeeps.ends hw

theorem checkAccess_ends : (liftM Store.checkAccess : Task Workspace CollectionError Unit).Ends w
    (fun _ w' => w' = w) fun _ w' => w'.store.registry = w.store.registry :=
  ((checkAccess_same w).ends rfl).mono (fun _ _ h => h) fun _ _ h => h ▸ rfl

theorem dropCluster_ends (c : ClusterId) : (dropCluster c).Ends w
    (fun _ w' => w'.store.registry.clusters = w.store.registry.clusters.erase c)
    fun _ w' => w'.store.registry = w.store.registry := by
  refine checkAccess_ends.bind ?_
  rintro _ w₁ rfl
  refine (Task.Gives.state w₁).bind_ends ?_
  dsimp only
  split
  · next id b hid hb =>
    refine (part_registry _ _ rfl).bind fun _ w₂ h₂ => (part_registry _ _ h₂).bind fun _ w₃ h₃ => ?_
    have hwithdraw : (liftM (Store.changeRegistry fun r => r.withdraw c b.tree.component.file) :
        Task Workspace CollectionError Unit).Gives w₃ ()
          { w₃ with store := { w₃.store with registry := w₃.store.registry.withdraw c b.tree.component.file } } := rfl
    refine hwithdraw.bind_ends (Task.Gives.ends (.change _ _) ?_)
    exact congrArg (fun r : Registry => r.clusters.erase c) h₃
  · exact .error rfl rfl

namespace Accounted

variable (h : w.Accounted size r₀)

include h

theorem createCluster_ends (c : ClusterId) : (Workspace.createCluster c).Ends w
    (fun id w' => w.store.registry.Founds c id w'.store.registry)
    fun _ w' => w'.store.registry = w.store.registry := by
  refine checkAccess_ends.bind ?_
  rintro _ w₁ rfl
  refine (Task.Gives.state w₁).bind_ends ?_
  dsimp only
  split
  · exact .error rfl rfl
  next hno =>
  replace hno : w₁.store.registry.registeredId? c = none := by simpa using hno
  obtain ⟨names, next, -, hmatches⟩ := h.matched
  have hnew := hmatches.clusters_free hno
  refine (h.fileExists_free hno).bind_ends ?_
  rw [if_neg Bool.false_ne_true]
  refine (part_registry _ _ rfl).bind fun tree w₂ h₂ => (part_registry _ _ h₂).bind fun sizes w₃ h₃ => ?_
  have hregister : (liftM (Store.changeRegistry fun r => r.register ⟨c, tree, sizes⟩) :
      Task Workspace CollectionError Unit).Gives w₃ ()
        { w₃ with store := { w₃.store with registry := w₃.store.registry.register ⟨c, tree, sizes⟩ } } := rfl
  refine hregister.bind_ends ((Task.Gives.change _ _).bind_ends (Task.Gives.ends (.pure _ _) ?_))
  show w₁.store.registry.Founds c _ (w₃.store.registry.register ⟨c, tree, sizes⟩)
  rw [h₃]
  refine ⟨fun {d f} hd => ?_, fun {d} => ?_, ⟨c, tree, sizes⟩, ?_, ?_⟩
  · have hne : c ≠ d := by
      rintro rfl
      rw [hnew] at hd
      cases hd
    simp [Registry.register, Registry.enroll, Std.TreeMap.getElem?_insert, hne, hd]
  · simp only [Registry.register, Registry.enroll, Std.TreeMap.mem_insert, Std.compare_eq_iff_eq]
    exact or_congr eq_comm Iff.rfl
  · simp [Registry.register, Registry.enroll]
  · simp [Registry.register, Registry.enroll, ClusterStorage.treeFile]

theorem clusterStorage_ends (c : ClusterId) : (Workspace.clusterStorage c).Ends w
    (fun id w' => w.store.registry.Founds c id w'.store.registry)
    fun _ w' => w'.store.registry = w.store.registry := by
  refine (Task.Gives.state w).bind_ends ?_
  split
  · next id hid =>
    obtain ⟨f, hf, hid⟩ := Option.bind_eq_some_iff.mp hid
    obtain ⟨b, hb, -, -⟩ := h.trail.inverse.cluster hid
    refine Task.Gives.ends (.pure id w) ⟨fun hf => hf, fun {d} => ⟨.inr, ?_⟩, b, hb, ?_⟩
    · rintro (rfl | hd)
      · exact Std.TreeMap.mem_iff_isSome_getElem?.mpr (by rw [hf]; rfl)
      · exact hd
    · obtain ⟨b', hb', -, hfile⟩ := h.trail.inverse.storage hf
      rw [Registry.storageOf?, hid, Option.bind_some, hb] at hb'
      obtain rfl := Option.some.inj hb'
      rw [hf, hfile]
  · next hno =>
    replace hno : w.store.registry.registeredId? c = none := Option.eq_none_iff_forall_ne_some.mpr hno
    refine (h.fileExists_free hno).bind_ends ?_
    exact h.createCluster_ends c

end Accounted

/-- A collection is made in the tree of its cluster. -/
theorem createRest_ends {id : StorageId} (hf : r.Founds c id w.store.registry) : (do
    let b ← storageAt id
    let collection ← allocateId b.tree idRound
    let slot ← onSizes b.sizes.add
    return (⟨id, ⟨b.tree.component.file, c, collection, slot⟩⟩ : Collection)).Ends w
      (fun a w' => w'.store.registry.clusters = w.store.registry.clusters ∧
        w'.store.registry.clusters[a.pointer.cluster]? = some a.pointer.file)
      fun _ w' => w'.store.registry.clusters = w.store.registry.clusters := by
  obtain ⟨b, hb, hfile⟩ := hf.storage
  have hallocate : (allocateId b.tree idRound).Ends w
      (fun _ w' => w'.store.registry.clusters = w.store.registry.clusters)
      fun _ w' => w'.store.registry.clusters = w.store.registry.clusters :=
    ((Lasting.ofRegistry fun r => r.clusters = w.store.registry.clusters).allocateId (fun _ h => h) b.tree idRound).ends
      rfl
  refine (storageAt_gives hb).bind_ends (hallocate.bind fun collection w₁ h₁ => ?_)
  have hadd : (onSizes b.sizes.add).Ends w₁ (fun _ w' => w'.store.registry.clusters = w.store.registry.clusters)
      fun _ w' => w'.store.registry.clusters = w.store.registry.clusters :=
    (part_registry _ _ rfl).mono (fun _ _ h => h ▸ h₁) fun _ _ h => h ▸ h₁
  refine hadd.bind fun slot w₂ h₂ => Task.Gives.ends (.pure _ _) ⟨h₂, ?_⟩
  rw [h₂]
  exact hfile

end Workspace

/-! ## What an estate says of a registry -/

namespace Estate

variable {E E₀ E' : Estate}

/-- A collection that is made is in the estate, and so is its cluster. -/
theorem after_create {a : Collection} (h : (Workspace.createCollection c).Gives w a w') :
    E.after w (.create c) = (E.found c).enter a.pointer := by
  obtain ⟨_, w₁, hcheck, hstorage⟩ := Task.bind_gives h
  obtain rfl : w₁ = w := Workspace.checkAccess_ends.of_gives hcheck
  obtain ⟨id, w₂, hg, -⟩ := Task.bind_gives hstorage
  rw [after, h.eq, hg.eq]
  rfl

theorem after_addCluster {id : StorageId} (h : (Workspace.createCluster c).Gives w id w') :
    E.after w (.addCluster c) = E.found c := by
  rw [after, h.eq]
  rfl

theorem after_dropCluster (h : (Workspace.dropCluster c).Gives w () w') : E.after w (.dropCluster c) = E.drop c := by
  rw [after, h.eq]
  rfl

/-- The clusters of the estate are registered, each with the tree that its collections are in. -/
structure Stands (E : Estate) (r : Registry) : Prop where
  clusters : ∀ {c : ClusterId}, c ∈ E.clusters ↔ c ∈ r.clusters
  pointers : ∀ {p : CollectionPointer}, p ∈ E.pointers → r.clusters[p.cluster]? = some p.file

namespace Stands

theorem empty : empty.Stands .empty := ⟨by simp [Estate.empty, Registry.empty], nofun⟩

theorem congr (h : E.Stands r) (hr : ∀ c : ClusterId, r'.clusters[c]? = r.clusters[c]?) : E.Stands r' where
  clusters {c} := by rw [h.clusters, Std.TreeMap.mem_iff_isSome_getElem?, Std.TreeMap.mem_iff_isSome_getElem?, hr]
  pointers hp := (hr _).trans (h.pointers hp)

theorem found {id : StorageId} (h : E.Stands r) (hf : r.Founds c id r') : (E.found c).Stands r' where
  clusters {d} := by rw [hf.only, ← h.clusters, Estate.found, List.mem_cons]
  pointers hp := hf.kept (h.pointers hp)

theorem enter (h : E.Stands r) (hp : r.clusters[p.cluster]? = some p.file) : (E.enter p).Stands r where
  clusters := h.clusters
  pointers hq := by
    rcases List.mem_cons.mp hq with rfl | hq
    · exact hp
    · exact h.pointers hq

theorem drop (h : E.Stands r) (hr : r'.clusters = r.clusters.erase c) : (E.drop c).Stands r' where
  clusters {d} := by
    rw [hr, Std.TreeMap.mem_erase, ← h.clusters, Estate.drop, List.mem_filter, decide_eq_true_eq, and_comm]
    exact and_congr_left fun _ => not_congr (by rw [Std.compare_eq_iff_eq, eq_comm])
  pointers {q} hq := by
    obtain ⟨hq, hne⟩ := List.mem_filter.mp hq
    rw [hr, lookup_erase_of_ne (of_decide_eq_true hne)]
    exact h.pointers hq

theorem upon {t : Task Workspace CollectionError α} {f : α → Estate → Estate}
    (ht : t.Ends w (fun a w' => (f a E).Stands w'.store.registry) fun _ w' => E.Stands w'.store.registry) :
    (E.upon (t.start w).1 f).Stands (t.start w).2.store.registry := by
  rcases hr : t.start w with ⟨cause | a, w'⟩
  · exact ht.of_error hr
  · exact ht.of_gives hr

section

variable (h : E.Stands w.store.registry) (ha : w.Accounted size r₀) (allowed : r₀.prohibited = false)

include h ha

theorem addCluster (c : ClusterId) : (Workspace.createCluster c).Ends w
    (fun _ w' => (E.found c).Stands w'.store.registry) fun _ w' => E.Stands w'.store.registry :=
  (ha.createCluster_ends c).mono (fun _ _ hf => h.found hf) fun _ _ hr => hr ▸ h

include allowed

/-- The cluster of a new collection is there, also if the collection is not made. -/
theorem create (c : ClusterId) : (Workspace.createCollection c).Ends w
    (fun a w' => ((E.upon ((Workspace.clusterStorage c).start w).1 fun _ => Estate.found c).enter a.pointer).Stands
      w'.store.registry)
    fun _ w' => (E.upon ((Workspace.clusterStorage c).start w).1 fun _ => Estate.found c).Stands w'.store.registry := by
  have hfree : w.store.registry.prohibited = false := ha.trail.prohibited.trans allowed
  have hstorage := ha.clusterStorage_ends c
  refine (Workspace.checkAccess_of_allowed hfree).bind_ends ?_
  rcases hr : (Workspace.clusterStorage c).start w with ⟨cause | id, w₁⟩
  · exact .error_bind hr ((hstorage.of_error hr).symm ▸ h)
  · have hfound := hstorage.of_gives hr
    have hstands : (E.found c).Stands w₁.store.registry := h.found hfound
    refine Task.Gives.bind_ends hr ((Workspace.createRest_ends hfound).mono ?_ fun _ w' hw => ?_)
    · rintro a w' ⟨hw, hp⟩
      exact (hstands.congr fun _ => hw ▸ rfl).enter hp
    · exact hstands.congr fun _ => hw ▸ rfl

/-- However a call ends, the estate after it tells what is registered. -/
theorem call (call : Collection.Call) : (E.after w call).Stands (call.run.start w).2.store.registry := by
  have hlasts {α : Type} {t : Task Workspace CollectionError α}
      (ht : t.Keeps fun w' => w'.store.registry.clusters = w.store.registry.clusters) :
      E.Stands (t.start w).2.store.registry := h.congr fun c => by rw [ht w rfl]
  have hlasting := Workspace.Lasting.ofRegistry fun r => r.clusters = w.store.registry.clusters
  have hplain {α : Type} {t : Task Workspace CollectionError α}
      (ht : t.Keeps fun w' => w'.store.registry.clusters = w.store.registry.clusters) :
      E.Stands ((Collection.Call.plain t).start w).2.store.registry := hlasts (ht.bind fun _ => .pure _)
  have hdone {α : Type} {t : Task Workspace CollectionError α} {f : α → Collection.Ledger → Collection.Ledger}
      {E' : Estate} (ht : E'.Stands (t.start w).2.store.registry) :
      E'.Stands ((do return f (← t) : Task Workspace CollectionError _).start w).2.store.registry :=
    Task.Keeps.after (P := fun w' : Workspace => E'.Stands w'.store.registry) ht fun _ => .pure _
  cases call with
  | create c => exact hdone (upon (h.create ha allowed c))
  | createOwned session c owner =>
    exact hdone (upon ((h.create ha allowed c).bind fun a w' hw => Task.Gives.ends (.pure _ _) hw))
  | put a r value => exact hplain (hlasting.put a r value)
  | remove a r => exact hplain (hlasting.remove a r)
  | get a r => exact hplain (hlasting.get a r)
  | size a => exact hplain (hlasting.size a)
  | entries a => exact hplain (hlasting.entries a)
  | first a => exact hplain (hlasting.first a)
  | last a => exact hplain (hlasting.last a)
  | load p => exact hplain (Workspace.ofStore_keeps fun _ _ => Workspace.loadCollection_keeps p)
  | delete p => exact hlasts ((hlasting.deleteCollection p).bind fun _ => .pure _)
  | addCluster c => exact hdone (upon (h.addCluster ha c))
  | dropCluster c =>
    rw [Collection.Call.run, (Task.Gives.state w).start_bind]
    exact hdone (upon ((Workspace.dropCluster_ends c).mono (fun _ _ hr => h.drop hr) fun _ _ hr => hr ▸ h))
  | hook label => exact hplain (.change fun _ h => h)

end

end Stands

end Estate

/-! ## Operations and stores -/

/-- What an operation has made of its workspace and of the estate by a number of calls, however these end.
Neither file ids nor slots may run out. -/
inductive Workspace.Settles (w₀ : Workspace) (E₀ : Estate) : Nat → Workspace → Estate → Prop where
  | nothing : Settles w₀ E₀ 0 w₀ E₀
  | call {k : Nat} {w : Workspace} {E : Estate} (before : Settles w₀ E₀ k w E) (call : Collection.Call)
      (room : w.store.engine.mounted.volume.catalog.nextId.toNat + 2 < UInt32.size)
      (slots : (call.run.start w).1 ≠ refuse (.sizes .exhausted)) :
      Settles w₀ E₀ (k + 1) (call.run.start w).2 (E.after w call)

namespace Workspace.Settles

variable {E E₀ : Estate}

theorem performs (h : w₀.Settles E₀ k w E) : w₀.Performs k w := by
  induction h with
  | nothing => exact .nothing
  | call before call room slots ih => exact .deed ih (.call call) room slots

/-- A call that succeeds. -/
theorem gives {call : Collection.Call} {f : Collection.Ledger → Collection.Ledger} (h : w₀.Settles E₀ k w E)
    (hg : call.run.Gives w f w') (room : w.store.engine.mounted.volume.catalog.nextId.toNat + 2 < UInt32.size) :
    w₀.Settles E₀ (k + 1) w' (E.after w call) := by
  have after := h.call call room (by rw [hg.eq]; nofun)
  rwa [hg.eq] at after

theorem called (h : w₀.Settles E₀ k w E) : Called w₀ w := by
  induction h with
  | nothing => exact .nothing
  | call before call room slots ih => exact .call ih call room

/-- The estate always tells what is registered. -/
theorem stands (h : w₀.Settles E₀ k w E) (ha : w₀.Accounted size r₀) (hample : Tree.Ample size)
    (allowed : r₀.prohibited = false) (hE : E₀.Stands w₀.store.registry) : E.Stands w.store.registry := by
  induction h with
  | nothing => exact hE
  | call before call room slots ih => exact ih.call (before.called.accounted hample ha) allowed call

end Workspace.Settles

namespace Store

variable {E E₀ E' : Estate}

/-- A store that was first opened on an empty directory, its estate, and the number of calls made since.
An operation that is given up does not change the estate. -/
inductive Built (dir : Path) (size : Nat) : Store → Estate → Nat → Prop where
  | opened {settings : Settings} {disk d disk' : Disk} {st : Store} {report : RecoveryReport}
      (empty : Disk.OffersEmpty dir disk d) (sound : disk.Sound) (live : disk.outage = none)
      (pages : settings.pageSize = size) (opening : Store.open settings dir disk = (.ok (st, report), disk')) :
      Built dir size st .empty 0
  | committed {α : Type} {st : Store} {E : Estate} {n : Nat} {op : Operation} {e : Engine} {k : Nat} {E' : Estate}
      {a : α} {st' : Store} (before : Built dir size st E n) (started : Engine.start.Gives st.engine op e)
      (t : Task Workspace CollectionError α)
      (work : (Workspace.begun st e op).Settles E k (t.start (.begun st e op)).2 E')
      (run : (atomically t).Gives st a st') : Built dir size st' E' (n + k)
  | rolledBack {α : Type} {st : Store} {E : Estate} {n : Nat} {op : Operation} {e : Engine} {k : Nat} {E' : Estate}
      {cause : Failure CollectionError} (before : Built dir size st E n)
      (started : Engine.start.Gives st.engine op e) (t : Task Workspace CollectionError α)
      (work : (Workspace.begun st e op).Settles E k (t.start (.begun st e op)).2 E')
      (fails : (t.start (.begun st e op)).1 = .error cause) : Built dir size ((atomically t).start st).2 E (n + k)
  | viewed {st : Store} {E : Estate} {n : Nat} {st' : Store} (before : Built dir size st E n) (views : st.Viewed st') :
      Built dir size st' E n
  | reopened {st : Store} {E : Estate} {n : Nat} {settings : Settings} {disk disk' : Disk} {st' : Store}
      {report : RecoveryReport} (before : Built dir size st E n)
      (ended : disk = st.disk ∨ disk = (close.start st).2.disk) (pages : settings.pageSize = size)
      (opening : Store.open settings dir disk = (.ok (st', report), disk')) : Built dir size st' E n

namespace Registers

section

variable (h : Registers dir place size s n st) (started : Engine.start.Gives st.engine op e)

include h started

/-- An operation that begins has nothing registered but the clusters with files. -/
theorem accounted : (Workspace.begun st e op).Accounted size st.registry := by
  exact h.houses.serves.pageSize ▸ h.toMatched.begun started

variable (hb : w.Backed st.engine.mounted e.journal size s k) (ha : w.Accounted size st.registry)

include hb ha

/-- After a commit it has the clusters of the operation. -/
theorem committed (hdir : dir.Roomy) {a b : α} (hf : w.finish (.ok a) = (.ok b, st')) :
    st'.registry = w.store.registry ∧ ∃ s', Registers dir place size s' k st' := by
  have hfinish := hf
  rw [Workspace.finish] at hf
  split at hf
  · next engine hcommit =>
    obtain ⟨-, usable, s', houses, -⟩ := h.houses.committed started hb hdir (hb.storable hcommit) hfinish
    obtain ⟨-, rfl⟩ := Prod.mk.inj hf
    obtain ⟨-, -, hmatches⟩ := ha.committed hcommit
    have hnames : (fun f : FileId => engine.mounted.volume.catalog.names[f]?) = s'.names :=
      funext houses.serves.catalog.name
    exact ⟨rfl, s', houses, usable, ha.trail.prohibited.trans h.allowed, hnames ▸ hmatches⟩
  · cases hf

/-- After an operation that was given up it has the clusters that it had. -/
theorem rolledBack (hn : n ≤ k) : Registers dir place size s k w.rollback where
  houses := h.houses.rolledBack started hb hn
  usable := by
    show w.store.engine.journal.broken = false
    rw [hb.journal]
    obtain ⟨usable, -, rfl⟩ := Engine.start_eq started
    exact usable
  allowed := ha.trail.rollback.alike.prohibited.trans h.allowed
  matched := h.matched.extend ha.trail.rollback

end

theorem viewed (h : Registers dir place size s n st) (views : st.Viewed st') : Registers dir place size s n st' := by
  have hb := views.beside
  exact ⟨h.houses.later hb.mounted hb.journal.2 (hb.registry ▸ h.houses.housed), hb.journal.2 ▸ h.usable,
    hb.registry ▸ h.allowed, hb.registry ▸ h.matched⟩

/-- What is opened on the disk that it leaves registers the same clusters. -/
theorem reopened (h : Registers dir place size s n st) (hdir : dir.Roomy) {settings : Settings}
    (pages : settings.pageSize = size) {disk disk' : Disk} {report : RecoveryReport}
    (ended : disk = st.disk ∨ disk = (close.start st).2.disk)
    (opening : Store.open settings dir disk = (.ok (st', report), disk')) :
    Registers dir place size s n st' ∧ ∀ c : ClusterId, st'.registry.clusters[c]? = st.registry.clusters[c]? := by
  have hdisk : disk = st.disk := ended.elim id fun he => he.trans h.houses.disk_close
  obtain ⟨st₁, _, hopen, hr⟩ := h.reopens hdir (Collection.open_cases opening).1 pages
  rw [← hdisk, opening] at hopen
  cases hopen
  refine ⟨hr, fun c => Option.ext fun f => ?_⟩
  rw [hr.matched.clusters, h.matched.clusters]

end Registers

namespace Built

theorem registers (h : Built dir size st E n) (hdir : dir.Roomy) (hn : n < 2 ^ 61) :
    ∃ place s, Registers dir place size s n st ∧ E.Stands st.registry := by
  induction h with
  | opened empty sound live pages opening =>
    obtain ⟨place, node, hr⟩ := Registers.opened empty sound live hdir pages opening
    refine ⟨place, _, hr, Estate.Stands.empty.congr fun c => Option.ext fun f => ?_⟩
    rw [hr.matched.clusters]
    simp [Registry.empty, Stock.empty]
  | committed before started t work run ih =>
    obtain ⟨place, s, hr, hE⟩ := ih (by omega)
    have ha := hr.accounted started
    have hb := work.performs.backed (hr.houses.backed started) hn
    obtain ⟨-, hfinish⟩ := Collection.finish_of_gives started run
    obtain ⟨hregistry, s', hr'⟩ :=
      hr.committed started hb (work.called.accounted hr.houses.ample ha) hdir hfinish
    exact ⟨place, s', hr', hregistry ▸ work.stands ha hr.houses.ample hr.allowed hE⟩
  | rolledBack before started t work fails ih =>
    obtain ⟨place, s, hr, hE⟩ := ih (by omega)
    have ha := work.called.accounted hr.houses.ample (hr.accounted started)
    have hb := work.performs.backed (hr.houses.backed started) hn
    rw [Collection.start_atomically started, fails]
    exact ⟨place, s, hr.rolledBack started hb ha (by omega), hE.congr ha.trail.rollback.alike.clusters⟩
  | viewed before views ih =>
    obtain ⟨place, s, hr, hE⟩ := ih hn
    exact ⟨place, s, hr.viewed views, views.beside.registry ▸ hE⟩
  | reopened before ended pages opening ih =>
    obtain ⟨place, s, hr, hE⟩ := ih hn
    obtain ⟨hr', hsame⟩ := hr.reopened hdir pages ended opening
    exact ⟨place, s, hr', hE.congr hsame⟩

/-- An operation that works on few files with not too many entries can be committed. -/
theorem commits (h : Built dir size st E n) (hdir : dir.Roomy) (started : Engine.start.Gives st.engine op e)
    {t : Task Workspace CollectionError α} {a : α} (hg : t.Gives (.begun st e op) a w)
    (work : (Workspace.begun st e op).Settles E k w E') (hn : n + k < 2 ^ 30)
    (hfiles : w.store.engine.mounted.volume.catalog.nextId.toNat ≤ 2 ^ 10) :
    ∃ st', (atomically t).Gives st a st' ∧ w.finish (.ok a) = (.ok a, st') ∧ Built dir size st' E' (n + k) ∧
      st'.engine.mounted.volume.catalog.nextId = w.store.engine.mounted.volume.catalog.nextId := by
  obtain ⟨place, s, hr, -⟩ := h.registers hdir (by omega)
  have hb := work.performs.backed (hr.houses.backed started) (by omega)
  obtain ⟨st', run, hfinish⟩ := hr.houses.commits started hg hb hdir (hb.storable_of_few hn hfiles)
  exact ⟨st', run, hfinish, .committed h started t (by rwa [hg.eq]) run, hb.next_finish hfinish⟩

end Built

end Store

end RefStore
