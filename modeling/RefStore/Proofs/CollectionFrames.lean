import RefStore.Proofs.FirstCollections
import RefStore.Proofs.StoreLives

/-!
# Collections that do not interfere

A change of a collection leaves all others as they are, though they may share pages with it: for the
operation that makes the change, and after its commit for every view. Main statement:
`Directory.Lives.others_spared`.
-/

namespace RefStore

variable {α β : Type} {dir : Path} {size n k j : Nat} {s : Stock} {st : Store} {op : Operation} {e : Engine}
  {w w' w₀ : Workspace} {m₀ : Mounted} {journal : Journal} {b : Collection} {t : Task Workspace CollectionError α}

namespace Workspace

/-- The cluster whose storage a handle leads to. -/
def cluster? (w : Workspace) (c : Collection) : Option ClusterId :=
  w.store.registry.storages[c.storage]?.map ClusterStorage.cluster

/-- The collection that a pointer names in a cluster is another one, with another slot if the cluster is
the same. -/
def Apart (w : Workspace) (cluster : Option ClusterId) (p : CollectionPointer) (b : Collection) : Prop :=
  cluster ≠ w.cluster? b ∨ p.collection ≠ b.id ∧ p.slot ≠ b.pointer.slot

/-- A change of a collection other than one. -/
inductive Change (w : Workspace) (b : Collection) : {α : Type} → Task Workspace CollectionError α → Prop where
  | put {a : Collection} (apart : w.Apart (w.cluster? a) a.pointer b) (r : RecordRef) (value : Int32) :
      Change w b (a.put r value)
  | remove {a : Collection} (apart : w.Apart (w.cluster? a) a.pointer b) (r : RecordRef) : Change w b (a.remove r)
  | delete {p : CollectionPointer} (apart : w.Apart (some p.cluster) p b) : Change w b (deleteCollection p)

namespace Change

/-- Only this collection and its slot are watched. -/
def watch (w : Workspace) (b : Collection) : Watch := fun x c slot =>
  w.store.registry.storages[b.storage]? = some x ∧ c = b.id ∧ slot = b.pointer.slot

theorem clear {cluster : ClusterId} {p : CollectionPointer} (h : w.Apart (some cluster) p b) :
    (watch w b).Clear cluster p.collection p.slot := by
  rintro x _ _ ⟨hx, rfl, rfl⟩ rfl
  refine h.resolve_left fun hne => hne ?_
  rw [cluster?, hx]
  rfl

theorem agrees {R : Mounted → Mounted → Prop} (hR : Mounted.ReadAlike R) (h : w.Change b t) :
    t.Agrees (Beside R journal) := by
  cases h with
  | put _ r value => exact Collection.put_agrees hR _ r value
  | remove _ r => exact Collection.remove_agrees hR _ r
  | delete _ => exact deleteCollection_agrees hR _

/-- The storages are the same after it, and show the same of the other collection. -/
theorem spares (h : w.Change b t) (hw : w.Hosts size s n) (hn : n + 1 < 2 ^ 61) :
    Spares size s (n + 1) (watch w b) w (t.start w).2 := by
  have hclear {a : Collection} (apart : w.Apart (w.cluster? a) a.pointer b) (x : ClusterStorage)
      (hx : w.store.registry.storages[a.storage]? = some x) :
      (watch w b).Clear x.cluster a.id a.pointer.slot := by
    rw [cluster?, hx] at apart
    exact clear apart
  have hmore {w' : Workspace} (h : Spares size s n (watch w b) w w') : Spares size s (n + 1) (watch w b) w w' :=
    ⟨Transaction.Hosts.mono h.hosts (Nat.le_succ n), h.registry, h.alike⟩
  cases h with
  | put apart r value => exact hw.put hn _ r value (hclear apart)
  | remove apart r => exact hmore (hw.remove _ r (hclear apart))
  | delete apart => exact hmore (hw.delete _ (clear apart))

theorem on {m : Mounted} (h : w.Change b t) : (w.on m).Change b t := by
  cases h with
  | put apart r value => exact Change.put (w := w.on m) apart r value
  | remove apart r => exact Change.remove (w := w.on m) apart r
  | delete apart => exact Change.delete (w := w.on m) apart

/-- The other collection answers as before. -/
theorem asked (h : w.Change b t) (hw : w.Backed m₀ journal size s n) (hn : n + 1 < 2 ^ 61) :
    (t.start w).2.Backed m₀ journal size s (n + 1) ∧
      ∀ {β : Type} {u : Task Workspace CollectionError β}, b.Asks u → (u.start (t.start w).2).1 = (u.start w).1 := by
  obtain ⟨m, hm, hosts⟩ := hw.twin
  have hspares := h.on.spares hosts hn
  have hagrees : t.Agrees (Beside _ journal) := h.agrees (Mounted.Twin.serveAlike_from m₀).toReadAlike
  refine ⟨hw.transfer hagrees hm hspares.hosts, fun {β u} asks => ?_⟩
  have hbeside := (hagrees _ _ (hw.beside hm)).2
  have hreads := asks.agrees (j := journal) (Mounted.Twin.serveAlike_from m₀).toReadAlike
  rw [(hreads _ _ hbeside).1, (hreads _ _ (hw.beside hm)).1]
  exact asks.start_eq (congrArg Registry.storages hspares.registry) fun x hx hbx =>
    hspares.alike x hx _ _ ⟨hbx, rfl, rfl⟩

end Change

/-- What a number of changes of other collections make of a workspace, however they end. -/
inductive Changes (w₀ : Workspace) (b : Collection) : Nat → Workspace → Prop where
  | nothing : Changes w₀ b 0 w₀
  | change {α : Type} {k : Nat} {w : Workspace} {t : Task Workspace CollectionError α}
      (before : Changes w₀ b k w) (change : w.Change b t) : Changes w₀ b (k + 1) (t.start w).2

theorem Changes.asked (h : w.Changes b k w') (hw : w.Backed m₀ journal size s n) (hn : n + k < 2 ^ 61) :
    w'.Backed m₀ journal size s (n + k) ∧
      ∀ {β : Type} {u : Task Workspace CollectionError β}, b.Asks u → (u.start w').1 = (u.start w).1 := by
  induction h with
  | nothing => exact ⟨hw, fun _ => rfl⟩
  | change before change ih =>
    obtain ⟨hb, hsame⟩ := ih (by omega)
    obtain ⟨hb', hsame'⟩ := change.asked hb hn
    exact ⟨hb', fun asks => (hsame' asks).trans (hsame asks)⟩

end Workspace

namespace Directory

/-- However an operation changes other collections, a collection answers in it as before. The operation began
with what views show, and every view after its commit shows what it ended with. -/
theorem Lives.others_spared (h : Lives dir size (.inUse st) n) (hdir : dir.Roomy)
    (started : Engine.start.Gives st.engine op e) (work : (Workspace.begun st e op).Performs k w)
    (changes : w.Changes b j w') (hn : n + k + j < 2 ^ 61) {u : Task Workspace CollectionError β} (asks : b.Asks u) :
    ((Store.view u).start st).1 = (u.start (.begun st e op)).1 ∧ (u.start w').1 = (u.start w).1 ∧
      ∀ {α : Type} {t : Task Workspace CollectionError α} {a : α}, t.Gives (.begun st e op) a w' →
        w'.operation.Storable size → ∃ st', (Store.atomically t).Gives st a st' ∧
          ∀ {st''}, st'.Viewed st'' → ((Store.view u).start st'').1 = (u.start w).1 := by
  obtain ⟨place, s, hs⟩ := h.housed hdir (by omega)
  obtain ⟨hb, hsame⟩ := changes.asked (work.backed (hs.backed started) (by omega)) hn
  refine ⟨?_, hsame asks, fun {α t a} hg storable => ?_⟩
  · rw [Store.view_start (Engine.start_eq started).1]
    exact (hs.asked_begun started asks).symm
  · obtain ⟨st', run, hfinish⟩ := hs.commits started hg hb hdir storable
    obtain ⟨-, hu, -, -, hasked⟩ := hs.committed started hb hdir storable hfinish
    refine ⟨st', run, fun {st''} views => ?_⟩
    rw [views.answers hu asks, hasked asks, hsame asks]

/-- Two collections share a tree and a size map. When one of them gets another entry, the other one lists its
own in the operation and after its commit, as it did before. -/
theorem Lives.others_spared_by_put : ∃ (st st' : Store) (x : ClusterStorage) (op : Operation) (e : Engine)
    (w : Workspace), Lives ⟨["d"]⟩ 1024 (.inUse st) 4 ∧ Engine.start.Gives st.engine op e ∧
      ((Store.view x.second.entries).start st).1 = .ok [(⟨1, 1⟩, 20)] ∧
      (x.first.put ⟨2, 2⟩ 30).Gives (.begun st e op) none w ∧ (x.second.entries.start w).1 = .ok [(⟨1, 1⟩, 20)] ∧
      (Store.atomically (x.first.put ⟨2, 2⟩ 30)).Gives st none st' ∧
      ((Store.view x.second.entries).start st').1 = .ok [(⟨1, 1⟩, 20)] ∧
      ((Store.view x.first.size).start st').1 = .ok 2 := by
  have hdir := Path.roomy_d
  obtain ⟨x, st, -, h⟩ := Store.exists_hasPair 1 ⟨1, 1⟩ ⟨1, 1⟩ 10 20
  obtain ⟨op, e, started⟩ := Engine.exists_start h.usable
  have lives : Lives ⟨["d"]⟩ 1024 (.inUse st) 4 := .of_built h.built hdir (by decide)
  obtain ⟨_, w, hput, hstore, hw⟩ := h.put_first started (r := ⟨2, 2⟩) (by decide) 30
  have apart : (Workspace.begun st e op).Apart ((Workspace.begun st e op).cluster? x.first) x.first.pointer x.second :=
    .inr ⟨show (1 : CollectionId) ≠ 2 by decide, show (0 : SlotId) ≠ 1 by decide⟩
  have changes := Workspace.Changes.change (@Workspace.Changes.nothing (.begun st e op) x.second)
    (.put apart ⟨2, 2⟩ 30)
  rw [hput.eq] at changes
  obtain ⟨place, s, hs⟩ := lives.housed hdir (by decide)
  have hb := (changes.asked (hs.backed started) (by decide)).1
  have hfiles : w.store.engine.mounted.volume.catalog.nextId.toNat ≤ 2 ^ 10 := by
    obtain ⟨-, -, rfl⟩ := Engine.start_eq started
    rw [hstore]
    exact h.next.le.trans (by decide)
  have storable := hb.storable_of_few (by decide) hfiles
  obtain ⟨hbefore, hduring, hafter⟩ :=
    lives.others_spared hdir started .nothing changes (by decide) (u := x.second.entries) .entries
  obtain ⟨st', run, hviews⟩ := hafter hput storable
  obtain ⟨-, -, -, hlisted⟩ := h.views
  have hlist : (x.second.entries.start (.begun st e op)).1 = .ok [(⟨1, 1⟩, 20)] := by
    rw [← hbefore, hlisted.eq]
  have hfinish := (Collection.finish_of_gives started run).2
  rw [hput.eq] at hfinish
  obtain ⟨-, hu, -, -, hasked⟩ := hs.committed started hb hdir storable hfinish
  have hcounted : x.first.size.Gives w 2 w := Workspace.size_gives hw.now (Shelves.only_zero _) rfl (by decide)
  refine ⟨st, st', x, op, e, w, lives, started, by rw [hlisted.eq], hput, hduring.trans hlist, run,
    (hviews .nothing).trans hlist, ?_⟩
  rw [Store.view_start hu, hasked .size, hcounted.eq]

end Directory

end RefStore
