import RefStore.Proofs.LastingCalls
import RefStore.Store

/-!
# Ids of collections

The count of collection ids only goes up while a store is open, and a new collection gets the id that
the count has come to. After the store was opened again the count is as high as the keys of its trees
say, which may be too low for a collection without entries.
-/

namespace RefStore

namespace Workspace

variable {α : Type} {c : CollectionId} {w w' : Workspace}

def counter (w : Workspace) : CollectionId := w.store.registry.counter

/-- A store where an operation has just begun. -/
def begun (s : Store) (e : Engine) (op : Operation) : Workspace := ⟨{ s with engine := e }, op, []⟩

/-- The workspace with the next collection id taken. -/
def counted (w : Workspace) : Workspace :=
  { w with store :=
    { w.store with registry := { w.store.registry with counter := w.counter + 1 } } }

/-- The search for an unused id does not go past the largest one. -/
def CountsOn (tree : Tree) : Nat → Workspace → Prop
  | 0, _ => True
  | fuel + 1, w =>
    w.counter ≠ Int64.maxValue ∧
      ∀ w', (onTree (tree.hasEntriesBetween (Key.range (w.counter + 1)).1
        (Key.range (w.counter + 1)).2)).Gives w.counted true w' → CountsOn tree fuel w'

/-- The next collection of a cluster does not get an id past the largest one. -/
def HasRoom (cluster : ClusterId) (w : Workspace) : Prop :=
  ∀ id w₁ s w₂, (clusterStorage cluster).Gives w id w₁ → (storageAt id).Gives w₁ s w₂ →
    CountsOn s.tree idRound w₂

/-- The ids handed out so far count up to the same number. -/
def At (c : CollectionId) (w : Workspace) : Prop := w.counter = c

theorem At.lasting : Lasting (At c) := .ofRegistry fun r => r.counter = c

theorem keeps_onTree (t : Task Transaction TreeError α) : Task.Keeps (At c) (onTree t) :=
  Task.Keeps.onPart (fun _ _ h => h) _

theorem keeps_onSizes (t : Task Transaction SizesError α) : Task.Keeps (At c) (onSizes t) :=
  Task.Keeps.onPart (fun _ _ h => h) _

theorem keeps_onStorage (t : Task Transaction StorageError α) : Task.Keeps (At c) (onStorage t) :=
  Task.Keeps.onPart (fun _ _ h => h) _

theorem keeps_onRollback (u : Undo) : Task.Keeps (At c) (onRollback u) := Task.Keeps.change fun _ h => h

theorem keeps_store {t : Task Store CollectionError α}
    (h : Task.Keeps (fun s => s.registry.counter = c) t) :
    Task.Keeps (At c) (liftM t : Task Workspace CollectionError α) :=
  Task.Keeps.within h (fun _ hw => hw) fun _ _ _ hs => hs

theorem keeps_register (s : ClusterStorage) :
    Task.Keeps (fun s => s.registry.counter = c) (Store.changeRegistry (·.register s)) :=
  Task.Keeps.change fun _ h => h

theorem keeps_withdraw (cluster : ClusterId) (file : FileId) :
    Task.Keeps (fun s => s.registry.counter = c) (Store.changeRegistry (·.withdraw cluster file)) :=
  Task.Keeps.change fun _ h => h

theorem keeps_loadCluster (cluster : ClusterId) :
    Task.Keeps (fun s => s.registry.counter = c) (Store.loadCluster cluster) := by
  refine checkAccess_keeps.bind fun _ => Task.Keeps.state.bind fun s => ?_
  split
  · exact .pure _
  · dsimp only
    split
    · exact .pure _
    · exact .refuse _
    · exact (keeps_register _).bind fun _ => .pure _

theorem keeps_createCluster (cluster : ClusterId) : Task.Keeps (At c) (createCluster cluster) := by
  refine (keeps_store checkAccess_keeps).bind fun _ => Task.Keeps.state.bind fun w => .guarded (.refuse _) ?_
  refine (keeps_onStorage _).bind fun known => .guarded (.refuse _) ?_
  refine (keeps_onTree _).bind fun tree => (keeps_onSizes _).bind fun sizes => ?_
  exact (keeps_store (keeps_register _)).bind fun _ => (keeps_onRollback _).bind fun _ => .pure _

theorem keeps_dropCluster (cluster : ClusterId) : Task.Keeps (At c) (dropCluster cluster) := by
  refine (keeps_store checkAccess_keeps).bind fun _ => Task.Keeps.state.bind fun w => ?_
  dsimp only
  split
  · exact (keeps_onTree _).bind fun _ => (keeps_onSizes _).bind fun _ =>
      (keeps_store (keeps_withdraw _ _)).bind fun _ => keeps_onRollback _
  · exact .refuse _

theorem keeps_clusterStorage (cluster : ClusterId) : Task.Keeps (At c) (clusterStorage cluster) := by
  refine Task.Keeps.state.bind fun w => ?_
  split
  · exact .pure _
  · refine (keeps_onStorage _).bind fun present => ?_
    cases present with
    | false => exact keeps_createCluster cluster
    | true =>
      refine (keeps_store (keeps_loadCluster cluster)).bind fun loaded => ?_
      cases loaded with
      | none => exact keeps_createCluster cluster
      | some id => exact .pure id

/-- However a task ends, it has not lowered the count, and an id that it made is a new one. -/
def Advances (made : α → CollectionId) (w : Workspace)
    (done : Checked CollectionError α × Workspace) : Prop :=
  w.counter ≤ done.2.counter ∧ ∀ a, done.1 = .ok a → w.counter < made a ∧ made a ≤ done.2.counter

namespace Advances

variable {β : Type} {made : α → CollectionId} {made' : β → CollectionId}
  {t : Task Workspace CollectionError α} {f : α → Task Workspace CollectionError β}

theorem error {made : α → CollectionId} {cause : Failure CollectionError}
    (h : w.counter ≤ w'.counter) : Advances made w (.error cause, w') :=
  ⟨h, nofun⟩

theorem of_le {done : Checked CollectionError α × Workspace} (h : w.counter ≤ w'.counter)
    (hd : Advances made w' done) : Advances made w done := by
  refine ⟨Int64.le_trans h hd.1, fun a ha => ?_⟩
  obtain ⟨hlt, hle⟩ := hd.2 a ha
  exact ⟨Int64.lt_of_le_of_lt h hlt, hle⟩

/-- A first part that leaves the count alone. -/
theorem after (ht : ∀ c, Task.Keeps (At c) t)
    (hf : ∀ a w', t.Gives w a w' → Advances made' w' ((f a).start w')) :
    Advances made' w ((t >>= f).start w) := by
  have hc := ht w.counter w rfl
  rw [Task.start_bind]
  rcases hr : t.start w with ⟨cause | a, w'⟩ <;> rw [hr] at hc
  · exact .error (by rw [hc]; exact Int64.le_refl _)
  · exact .of_le (by rw [hc]; exact Int64.le_refl _) (hf a w' hr)

/-- A last part that leaves the count alone and passes the id on. -/
theorem before (ht : Advances made w (t.start w)) (hk : ∀ a c, Task.Keeps (At c) (f a))
    (hv : ∀ a w' b w'', (f a).Gives w' b w'' → made' b = made a) :
    Advances made' w ((t >>= f).start w) := by
  rw [Task.start_bind]
  rcases hr : t.start w with ⟨cause | a, w'⟩ <;> rw [hr] at ht
  · exact .error ht.1
  · have hc := hk a w'.counter w' rfl
    refine ⟨by rw [hc]; exact ht.1, fun b hb => ?_⟩
    rw [hv a w' b _ (Prod.ext hb rfl), hc]
    exact ht.2 a rfl

end Advances

theorem lt_add_one {c : CollectionId} (h : 0 ≤ c) (hm : c ≠ Int64.maxValue) : c < c + 1 := by
  have hle := c.toInt_lt
  have hne : c.toInt ≠ 2 ^ 63 - 1 := fun he => hm (Int64.toInt_inj.mp he)
  have h0 : 0 ≤ c.toInt := Int64.le_iff_toInt_le.mp h
  have hs : (c + 1).toInt = c.toInt + 1 := by
    rw [Int64.toInt_add]
    exact Int.bmod_eq_of_le (by simp; omega) (by simp; omega)
  rw [Int64.lt_iff_toInt_lt, hs]
  omega

theorem add_one_pos {c : CollectionId} (h : 0 ≤ c) (hm : c ≠ Int64.maxValue) : ¬ c + 1 ≤ 0 := fun hle =>
  Int64.lt_irrefl (Int64.lt_of_le_of_lt (Int64.le_trans hle h) (lt_add_one h hm))

/-- The next id is taken. -/
theorem counted_gives (h : 0 ≤ w.counter) (hm : w.counter ≠ Int64.maxValue) : (liftM (Store.changeRegistry fun r =>
    { r with counter := if w.counter + 1 ≤ 0 then 0 else w.counter + 1 }) :
    Task Workspace CollectionError Unit).Gives w () w.counted := by
  rw [if_neg (add_one_pos h hm)]
  exact (Task.Gives.change _ _).onPart

/-- The count goes up with each id tried, and the id found is the one it has come to. -/
theorem allocateId_advances {tree : Tree} {fuel : Nat} (h : 0 ≤ w.counter)
    (room : CountsOn tree fuel w) : Advances id w ((allocateId tree fuel).start w) := by
  induction fuel generalizing w with
  | zero => exact .error (Int64.le_refl _)
  | succ fuel ih =>
    obtain ⟨hmax, hnext⟩ := room
    have hlt := lt_add_one h hmax
    have hpos : 0 ≤ w.counter + 1 := Int64.le_trans h (Int64.le_of_lt hlt)
    rw [allocateId, (Task.Gives.state w).start_bind]
    dsimp only
    rw [show w.store.registry.counter = w.counter from rfl, (counted_gives h hmax).start_bind,
      if_neg (add_one_pos h hmax), Task.start_bind]
    have hkept := keeps_onTree (tree.hasEntriesBetween (Key.range (w.counter + 1)).1
      (Key.range (w.counter + 1)).2) w.counted rfl
    rcases hr : (onTree (tree.hasEntriesBetween (Key.range (w.counter + 1)).1
      (Key.range (w.counter + 1)).2)).start w.counted with ⟨cause | taken, w'⟩ <;> rw [hr] at hkept
    all_goals
      have hat : w'.counter = w.counter + 1 := hkept
      have hle : w.counter ≤ w'.counter := by rw [hat]; exact Int64.le_of_lt hlt
    · exact .error hle
    · cases taken with
      | true => exact .of_le hle (ih (by rw [hat]; exact hpos) (hnext w' hr))
      | false =>
        refine ⟨hle, fun a ha => ?_⟩
        cases ha
        exact ⟨hlt, show w.counter + 1 ≤ w'.counter by rw [hat]; exact Int64.le_refl _⟩

theorem checkAccess_gives {u : Unit}
    (h : (liftM Store.checkAccess : Task Workspace CollectionError Unit).Gives w u w') : w' = w := by
  obtain ⟨s, hs, rfl⟩ := Task.onPart_gives h
  have hs : Store.checkAccess.Gives w.store u s := hs
  obtain ⟨s₀, s₁, h₀, hs⟩ := Task.bind_gives hs
  obtain ⟨rfl, rfl⟩ := h₀.unique (Task.Gives.state _)
  split at hs
  · exact absurd hs Task.not_gives_refuse
  · rw [(Task.gives_pure hs).2]
    rfl

theorem createCollection_advances {cluster : ClusterId} (h : 0 ≤ w.counter)
    (room : HasRoom cluster w) : Advances Collection.id w ((createCollection cluster).start w) := by
  refine .after (fun _ => keeps_store checkAccess_keeps) fun _ w₀ h₀ => ?_
  obtain rfl := checkAccess_gives h₀
  refine .after (fun _ => keeps_clusterStorage cluster) fun place w₁ h₁ => ?_
  refine .after (fun _ => storageAt_keeps place) fun s w₂ h₂ => ?_
  have hat₁ : w₁.counter = w₀.counter := (keeps_clusterStorage cluster).gives h₁ rfl
  have hat₂ : w₂.counter = w₁.counter := (storageAt_keeps (P := At w₁.counter) place).gives h₂ rfl
  have hnew := allocateId_advances (by rw [hat₂, hat₁]; exact h) (room place w₁ s w₂ h₁ h₂)
  refine hnew.before (fun a c => (keeps_onSizes _).bind fun _ => .pure _) fun a w' b w'' hb => ?_
  obtain ⟨slot, w₃, -, hb⟩ := Task.bind_gives hb
  rw [(Task.gives_pure hb).1]
  rfl

theorem createOwned_advances {session : Session} {cluster : ClusterId} {owner : Option Uuid}
    (h : 0 ≤ w.counter) (room : HasRoom cluster w) :
    Advances (fun done => done.1.collection) w ((createOwned session cluster owner).start w) := by
  refine (createCollection_advances h room).before (fun a c => .pure _) fun a w' b w'' hb => ?_
  rw [(Task.gives_pure hb).1]
  rfl

end Workspace

end RefStore
