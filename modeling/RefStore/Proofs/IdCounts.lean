import RefStore.Proofs.FirstCollections
import RefStore.Proofs.StoreLives

/-!
# Counting collection ids

The count of collection ids goes up by one with each attempt at an id, and starts again from 0 after the
largest one. An id that is handed out is the number the count has come to. So whatever the operations of a
store do, and however they end, the ids that they get are met one after another. Main statement:
`Store.Issues.handsOut`.
-/

namespace RefStore

open Collection (Ledger)

namespace Workspace

variable {α : Type} {c c' c'' : CollectionId} {ids ids' : List CollectionId} {w w' w₀ : Workspace} {j : ℕ}

/-! ## The count -/

/-- The count after one more attempt at an id. Past the largest id it is 0, which is no id. -/
def nextCount (c : CollectionId) : CollectionId := if c + 1 ≤ 0 then 0 else c + 1

/-- The workspace with another count. -/
def withCount (w : Workspace) (c : CollectionId) : Workspace :=
  { w with store := { w.store with registry := { w.store.registry with counter := c } } }

theorem nextCount_nonneg (c : CollectionId) : 0 ≤ nextCount c := by
  rw [nextCount]
  split
  · exact Int64.le_refl 0
  · next h => exact Int64.le_of_lt (Int64.not_le.mp h)

theorem toInt_add_one (c : CollectionId) (hc : c.toInt < 2 ^ 63 - 1) : (c + 1).toInt = c.toInt + 1 := by
  have hle := c.le_toInt
  rw [Int64.toInt_add]
  exact Int.bmod_eq_of_le (by simp; omega) (by simp; omega)

theorem nextCount_of_neg (h : c < 0) : nextCount c = 0 := by
  have hneg : c.toInt < 0 := Int64.lt_iff_toInt_lt.mp h
  refine if_pos (Int64.le_iff_toInt_le.mpr ?_)
  rw [toInt_add_one c (by omega)]
  exact hneg

theorem toInt_nextCount (h : 0 ≤ c) : (nextCount c).toInt = (c.toInt + 1) % 2 ^ 63 := by
  have h0 : 0 ≤ c.toInt := Int64.le_iff_toInt_le.mp h
  have hlt := c.toInt_lt
  by_cases hmax : c.toInt = 2 ^ 63 - 1
  · obtain rfl : c = Int64.maxValue := Int64.toInt_inj.mp hmax
    decide
  · have hsucc := toInt_add_one c (by omega)
    have hpos : ¬ c + 1 ≤ 0 := fun hle => by
      have hle : (c + 1).toInt ≤ 0 := Int64.le_iff_toInt_le.mp hle
      omega
    rw [nextCount, if_neg hpos, hsucc]
    omega

/-- The count goes round through 0 and all ids. -/
theorem toInt_iterate_nextCount (h : 0 ≤ c) (j : ℕ) : (nextCount^[j] c).toInt = (c.toInt + j) % 2 ^ 63 := by
  have h0 : 0 ≤ c.toInt := Int64.le_iff_toInt_le.mp h
  have hlt := c.toInt_lt
  induction j generalizing c with
  | zero =>
    rw [Function.iterate_zero, id]
    omega
  | succ j ih =>
    have hnext := toInt_nextCount h
    rw [Function.iterate_succ_apply, ih (nextCount_nonneg c) (by omega) (by omega), hnext]
    omega

/-- It goes up as long as it has not passed the largest id. -/
theorem toInt_iterate_of_lt (h : 0 ≤ c) (hj : c.toInt + j < 2 ^ 63) : (nextCount^[j] c).toInt = c.toInt + j := by
  have h0 : 0 ≤ c.toInt := Int64.le_iff_toInt_le.mp h
  rw [toInt_iterate_nextCount h]
  omega

/-! ## Ids that are handed out -/

/-- While the count goes from one number to another, ids are handed out, each by an attempt later than the
one before. -/
structure HandsOut (c : CollectionId) (ids : List CollectionId) (c' : CollectionId) : Prop where
  attempts : ∃ (m : ℕ) (ms : List ℕ), c' = nextCount^[m] c ∧ ids = ms.map (nextCount^[·] c) ∧
    ms.Pairwise (· < ·) ∧ ∀ j ∈ ms, 0 < j ∧ j ≤ m
  valid : ∀ id ∈ ids, 1 ≤ id

namespace HandsOut

theorem nothing (c : CollectionId) : HandsOut c [] c := ⟨⟨0, [], rfl, rfl, .nil, nofun⟩, nofun⟩

theorem skip (c : CollectionId) : HandsOut c [] (nextCount c) := ⟨⟨1, [], rfl, rfl, .nil, nofun⟩, nofun⟩

theorem one (h : ¬ c + 1 ≤ 0) : HandsOut c [c + 1] (c + 1) := by
  have hnext : nextCount c = c + 1 := if_neg h
  refine ⟨⟨1, [1], hnext.symm, by simp [hnext], List.pairwise_singleton _ _, by simp⟩, fun id hid => ?_⟩
  obtain rfl := List.mem_singleton.mp hid
  have hpos : 0 < (c + 1).toInt := Int64.lt_iff_toInt_lt.mp (Int64.not_le.mp h)
  exact Int64.le_iff_toInt_le.mpr hpos

theorem trans (h : HandsOut c ids c') (h' : HandsOut c' ids' c'') : HandsOut c (ids ++ ids') c'' := by
  obtain ⟨⟨m, ms, rfl, hids, hms, hle⟩, hvalid⟩ := h
  obtain ⟨⟨m', ms', rfl, hids', hms', hle'⟩, hvalid'⟩ := h'
  refine ⟨⟨m' + m, ms ++ ms'.map (· + m), ?_, ?_, ?_, fun j hj => ?_⟩, fun id hid =>
    (List.mem_append.mp hid).elim (hvalid id) (hvalid' id)⟩
  · exact (Function.iterate_add_apply nextCount m' m c).symm
  · rw [List.map_append, List.map_map, hids, hids']
    refine congrArg _ (List.map_congr_left fun j _ => ?_)
    exact (Function.iterate_add_apply nextCount j m c).symm
  · -- the attempts of the second part come after all those of the first
    refine List.pairwise_append.mpr ⟨hms, List.pairwise_map.mpr (hms'.imp fun hlt => Nat.add_lt_add_right hlt m),
      fun i hi j hj => ?_⟩
    obtain ⟨j', hj', rfl⟩ := List.mem_map.mp hj
    have hi := hle i hi
    have hj' := hle' j' hj'
    omega
  · rcases List.mem_append.mp hj with hj | hj
    · have hj := hle j hj
      omega
    · obtain ⟨j', hj', rfl⟩ := List.mem_map.mp hj
      have hj' := hle' j' hj'
      omega

/-- Until the count has passed the largest id, the ids go up. -/
theorem pairwise (h : HandsOut c ids c') (hc : 0 ≤ c) : ∃ ms : List ℕ, ids = ms.map (nextCount^[·] c) ∧
    (∀ j ∈ ms, 0 < j) ∧
    ms.Pairwise fun i j : ℕ => i < j ∧ (c.toInt + j < 2 ^ 63 → nextCount^[i] c < nextCount^[j] c) := by
  obtain ⟨⟨m, ms, -, hids, hms, hle⟩, -⟩ := h
  refine ⟨ms, hids, fun j hj => (hle j hj).1, hms.imp fun {i j} hlt => ⟨hlt, fun hj => ?_⟩⟩
  rw [Int64.lt_iff_toInt_lt, toInt_iterate_of_lt hc hj, toInt_iterate_of_lt hc (by omega)]
  omega

end HandsOut

/-! ## Calls -/

/-- A task hands out what the ids of its outcome are, and nothing if it fails. -/
def Issuing (t : Task Workspace CollectionError α) (made : α → List CollectionId) (w : Workspace) : Prop :=
  t.Ends w (fun a w' => HandsOut w.counter (made a) w'.counter) fun _ w' => HandsOut w.counter [] w'.counter

section

variable {β : Type} {t : Task Workspace CollectionError α} {f : α → Task Workspace CollectionError β}
  {made : α → List CollectionId} {made' : β → List CollectionId}

theorem Issuing.of_keeps (h : ∀ c, t.Keeps (At c)) : Issuing t (fun _ => []) w := by
  refine ((h w.counter).ends rfl).mono ?_ ?_
  all_goals
    rintro _ w' (hc : w'.counter = w.counter)
    exact hc ▸ .nothing _

theorem Issuing.after (h : ∀ c, t.Keeps (At c)) (hf : ∀ a w', Issuing (f a) made' w') : Issuing (t >>= f) made' w := by
  refine Task.Ends.bind (Issuing.of_keeps h) fun a w' hw' => (hf a w').mono ?_ ?_
  all_goals
    intro _ w'' hw''
    exact hw'.trans hw''

/-- What follows the making of ids leaves the count alone and passes the ids on. -/
theorem Issuing.before (h : Issuing t made w) (hk : ∀ a c, (f a).Keeps (At c))
    (hv : ∀ a w' b w'', (f a).Gives w' b w'' → made' b = made a) : Issuing (t >>= f) made' w := by
  rw [Issuing, Task.Ends, Task.start_bind]
  rcases hr : t.start w with ⟨cause | a, w'⟩
  · exact h.of_error hr
  · have hmade : HandsOut w.counter (made a) w'.counter := h.of_gives hr
    have hkept : ((f a).start w').2.counter = w'.counter := hk a w'.counter w' rfl
    dsimp only
    rcases hr' : (f a).start w' with ⟨cause | b, w''⟩ <;> rw [hr'] at hkept
    · dsimp only at hkept ⊢
      rw [hkept]
      obtain ⟨⟨m, ms, hm, -, -, -⟩, -⟩ := hmade
      exact ⟨⟨m, [], hm, rfl, .nil, List.forall_mem_nil _⟩, List.forall_mem_nil _⟩
    · dsimp only at hkept ⊢
      rw [hkept, hv a w' b w'' hr']
      exact hmade

end

/-- One attempt of a search counts once. -/
theorem count_gives (w : Workspace) : (liftM (Store.changeRegistry fun r =>
    { r with counter := if w.counter + 1 ≤ 0 then 0 else w.counter + 1 }) :
    Task Workspace CollectionError Unit).Gives w () (w.withCount (nextCount w.counter)) :=
  (Task.Gives.change _ _).onPart

/-- The search for an unused id meets it with its last attempt. -/
theorem allocateId_issuing (tree : Tree) (fuel : ℕ) : Issuing (allocateId tree fuel) (fun id => [id]) w := by
  induction fuel generalizing w with
  | zero => exact .error rfl (.nothing _)
  | succ fuel ih =>
    have hagain : Issuing (allocateId tree fuel) (fun id => [id]) (w.withCount (nextCount w.counter)) := ih
    refine (Task.Gives.state w).bind_ends ((count_gives w).bind_ends ?_)
    have hskip : (allocateId tree fuel).Ends (w.withCount (nextCount w.counter))
        (fun id w' => HandsOut w.counter [id] w'.counter) fun _ w' => HandsOut w.counter [] w'.counter :=
      hagain.mono (fun _ _ h => (HandsOut.skip w.counter).trans h) fun _ _ h => (HandsOut.skip w.counter).trans h
    split
    · exact hskip
    · next hpos =>
      have hcount : nextCount w.counter = w.counter + 1 := if_neg hpos
      have hasks := (keeps_onTree (c := nextCount w.counter) (tree.hasEntriesBetween (Key.range (w.counter + 1)).1
        (Key.range (w.counter + 1)).2)).ends (s := w.withCount (nextCount w.counter)) rfl
      refine (hasks.mono (fun _ _ h => h) fun _ w' (h : w'.counter = _) => h ▸ .skip w.counter).bind ?_
      intro taken w' (hw' : w'.counter = nextCount w.counter)
      split
      · exact (ih (w := w')).mono (fun _ _ h => (hw' ▸ HandsOut.skip w.counter).trans h)
          fun _ _ h => (hw' ▸ HandsOut.skip w.counter).trans h
      · refine Task.Gives.ends (.pure _ _) ?_
        rw [hw', hcount]
        exact .one hpos

theorem createCollection_issuing (cluster : ClusterId) : Issuing (createCollection cluster) (fun a => [a.id]) w := by
  refine .after (fun _ => keeps_store checkAccess_keeps) fun _ w₀ => ?_
  refine .after (fun _ => keeps_clusterStorage cluster) fun id w₁ => ?_
  refine .after (fun _ => storageAt_keeps id) fun x w₂ => ?_
  refine (allocateId_issuing x.tree idRound).before (fun _ _ => (keeps_onSizes _).bind fun _ => .pure _) ?_
  intro collection w₃ a w₄ ha
  obtain ⟨slot, w₅, -, ha⟩ := Task.bind_gives ha
  rw [(Task.gives_pure ha).1]
  rfl

end Workspace

/-- The ids of the collections on a ledger. -/
def Collection.Ledger.ids (l : Ledger) : List CollectionId := l.map fun m => m.pointer.collection

namespace Workspace

variable {c : CollectionId} {ids ids' : List CollectionId} {w w₀ : Workspace}

/-- The ids of the collections that a call has made, which are those it enters on an empty ledger. -/
def Makes (t : Task Workspace CollectionError (Ledger → Ledger)) (w : Workspace) : Prop :=
  Issuing t (fun f => (f []).ids) w

namespace Makes

variable {α : Type} {t : Task Workspace CollectionError (Ledger → Ledger)} {u : Task Workspace CollectionError α}

theorem nothing (h : ∀ c, t.Keeps (At c)) (hf : ∀ f w', t.Gives w f w' → f [] = []) : Makes t w := by
  rcases hr : t.start w with ⟨cause | f, w'⟩
  · exact .error hr ((Issuing.of_keeps h).of_error hr)
  · have hg : t.Gives w f w' := hr
    refine hg.ends ?_
    dsimp only
    rw [hf f w' hg]
    exact (Issuing.of_keeps h).of_gives hg

theorem plain (h : ∀ c, u.Keeps (At c)) : Makes (Collection.Call.plain u) w := by
  refine nothing (fun c => (h c).bind fun _ => .pure _) fun f w' hf => ?_
  obtain ⟨_, _, -, hf⟩ := Task.bind_gives hf
  rw [(Task.gives_pure hf).1]

theorem entered {pointer : α → CollectionPointer} (h : Issuing u (fun a => [(pointer a).collection]) w) :
    Makes (do return Ledger.enter (pointer (← u))) w := by
  refine Issuing.before h (fun _ _ => .pure _) fun a w' f w'' hf => ?_
  rw [(Task.gives_pure hf).1]
  rfl

end Makes

theorem call_makes (call : Collection.Call) : Makes call.run w := by
  cases call with
  | create cluster => exact .entered (createCollection_issuing cluster)
  | createOwned session cluster owner =>
    have howned : Issuing (createOwned session cluster owner) (fun a => [a.1.collection]) w := by
      refine (createCollection_issuing cluster).before (fun _ _ => .pure _) fun a w' b w'' hb => ?_
      rw [(Task.gives_pure hb).1]
      rfl
    exact .entered howned
  | put a r value => exact .plain fun _ => At.lasting.put a r value
  | remove a r => exact .plain fun _ => At.lasting.remove a r
  | get a r => exact .plain fun _ => At.lasting.get a r
  | size a => exact .plain fun _ => At.lasting.size a
  | entries a => exact .plain fun _ => At.lasting.entries a
  | first a => exact .plain fun _ => At.lasting.first a
  | last a => exact .plain fun _ => At.lasting.last a
  | load p => exact .plain fun _ => keeps_store (loadCollection_keeps p)
  | delete p =>
    refine .nothing (fun _ => (At.lasting.deleteCollection p).bind fun _ => .pure _) fun f w' hf => ?_
    obtain ⟨_, _, -, hf⟩ := Task.bind_gives hf
    rw [(Task.gives_pure hf).1]
    rfl
  | addCluster cluster => exact .plain fun _ => keeps_createCluster cluster
  | dropCluster cluster =>
    refine .nothing (fun _ => Task.Keeps.state.bind fun _ => (keeps_dropCluster cluster).bind fun _ => .pure _)
      fun f w' hf => ?_
    obtain ⟨w₀, _, -, hf⟩ := Task.bind_gives hf
    obtain ⟨_, _, -, hf⟩ := Task.bind_gives hf
    rw [(Task.gives_pure hf).1]
    cases w₀.store.registry.storage? cluster <;> rfl
  | hook label => exact .plain fun _ => keeps_onRollback _

namespace Deed

theorem makes (deed : Deed) : Makes deed.run w := by
  have hfiles {α : Type} {id : StorageId} {f : ClusterStorage → Task Workspace CollectionError α}
      (hf : ∀ x c, (f x).Keeps (At c)) : Makes (onFiles id f) w :=
    .plain fun c => (storageAt_keeps id).bind fun x => hf x c
  cases deed with
  | call a => exact call_makes a
  | putEntry id key value => exact hfiles fun _ _ => keeps_onTree _
  | removeEntry id key => exact hfiles fun _ _ => keeps_onTree _
  | addSlot id => exact hfiles fun _ _ => keeps_onSizes _
  | incrementSlot id slot => exact hfiles fun _ _ => keeps_onSizes _
  | decrementSlot id slot => exact hfiles fun _ _ => keeps_onSizes _
  | removeSlot id slot => exact hfiles fun _ _ => keeps_onSizes _

/-- The ids of the collections that a deed makes. -/
def issued (deed : Deed) (w : Workspace) : List CollectionId := (Ledger.after [] (deed.run.start w).1).ids

theorem handsOut (deed : Deed) (w : Workspace) :
    HandsOut w.counter (deed.issued w) (deed.run.start w).2.counter := by
  have hmakes : Makes deed.run w := deed.makes
  rw [issued]
  rcases hr : deed.run.start w with ⟨cause | f, w'⟩
  · exact hmakes.of_error hr
  · exact hmakes.of_gives hr

end Deed

/-! ## Runs -/

/-- The ids that an operation got for collections by a number of deeds, however these ended. -/
inductive Issues (w₀ : Workspace) : List CollectionId → Workspace → Prop where
  | nothing : Issues w₀ [] w₀
  | deed {ids : List CollectionId} {w : Workspace} (before : Issues w₀ ids w) (deed : Deed) :
      Issues w₀ (ids ++ deed.issued w) (deed.run.start w).2
  | clusterLoaded {ids : List CollectionId} {w : Workspace} (before : Issues w₀ ids w) (cluster : ClusterId) :
      Issues w₀ ids { w with store := ((Store.loadCluster cluster).start w.store).2 }
  | viewed {ids : List CollectionId} {w : Workspace} {st : Store} (before : Issues w₀ ids w)
      (views : w.store.Viewed st) : Issues w₀ ids { w with store := st }

theorem Issues.handsOut (h : w₀.Issues ids w) : HandsOut w₀.counter ids w.counter := by
  induction h with
  | nothing => exact .nothing _
  | deed before deed ih => exact ih.trans (deed.handsOut _)
  | @clusterLoaded ids w before cluster ih =>
    have hkept : ((Store.loadCluster cluster).start w.store).2.registry.counter = w.counter :=
      keeps_loadCluster (c := w.counter) cluster w.store rfl
    show HandsOut w₀.counter ids ((Store.loadCluster cluster).start w.store).2.registry.counter
    rw [hkept]
    exact ih
  | @viewed ids w st before views ih =>
    show HandsOut w₀.counter ids st.registry.counter
    rw [← views.beside.registry]
    exact ih

/-- A deed that succeeds hands out what it enters. -/
theorem Issues.gives {deed : Deed} {f : Ledger → Ledger} {w' : Workspace} (h : w₀.Issues ids w)
    (hd : deed.run.Gives w f w') : w₀.Issues (ids ++ (f []).ids) w' := by
  have after := h.deed deed
  rwa [Deed.issued, hd.eq] at after

theorem Issues.create {cluster : ClusterId} {a : Collection} {w' : Workspace} (h : w₀.Issues ids w)
    (hg : (createCollection cluster).Gives w a w') : w₀.Issues (ids ++ [a.id]) w' := by
  have hd : (Deed.call (.create cluster)).run.Gives w (Ledger.enter a.pointer) w' := Collection.Call.create_gives hg
  exact h.gives hd

/-- The first two collections of a new store get the ids 1 and 2. -/
theorem MakesPair.issues {x : ClusterStorage} {r₁ r₂ : RecordRef} {v₁ v₂ : Int32} {w₁ w₂ w₃ : Workspace}
    (h : MakesPair x r₁ r₂ v₁ v₂ w₀ w₁ w₂ w₃ w) : w₀.Issues [1, 2] w := by
  have hput {w w' : Workspace} {c : Collection} {r : RecordRef} {v : Int32} {old : Option Int32}
      (hc : (c.put r v).Gives w old w') : (Deed.call (.put c r v)).run.Gives w (fun l => l) w' :=
    Collection.Call.put_gives hc
  exact (((Issues.nothing.create h.first).create h.second).gives (hput h.firstPut)).gives (hput h.secondPut)

end Workspace

namespace Store

variable {st st' : Store} {ids : List CollectionId}

/-- The ids that the operations of an open store got for collections, whether they were committed or not. -/
inductive Issues (st : Store) : List CollectionId → Store → Prop where
  | nothing : Issues st [] st
  | operation {α : Type} {ids ids' : List CollectionId} {st' : Store} {op : Operation} {e : Engine}
      (before : Issues st ids st') (started : Engine.start.Gives st'.engine op e)
      (t : Task Workspace CollectionError α)
      (work : (Workspace.begun st' e op).Issues ids' (t.start (.begun st' e op)).2) :
      Issues st (ids ++ ids') ((atomically t).start st').2
  | viewed {ids : List CollectionId} {st' st'' : Store} (before : Issues st ids st') (views : st'.Viewed st'') :
      Issues st ids st''
  | clusterLoaded {ids : List CollectionId} {st' : Store} (before : Issues st ids st') (cluster : ClusterId) :
      Issues st ids ((loadCluster cluster).start st').2
  | prohibited {ids : List CollectionId} {st' : Store} (before : Issues st ids st') :
      Issues st ids (prohibit.start st').2
  | closed {ids : List CollectionId} {st' : Store} (before : Issues st ids st') : Issues st ids (close.start st').2

/-- The ids are met one after another while the count goes on. -/
theorem Issues.handsOut (h : st.Issues ids st') :
    Workspace.HandsOut st.registry.counter ids st'.registry.counter := by
  induction h with
  | nothing => exact .nothing _
  | operation before started t work ih =>
    rw [Collection.counter_atomically started]
    exact ih.trans work.handsOut
  | viewed before views ih => exact views.beside.registry ▸ ih
  | @clusterLoaded ids st₁ before cluster ih =>
    have hkept := Workspace.keeps_loadCluster (c := st₁.registry.counter) cluster st₁ rfl
    rw [hkept]
    exact ih
  | prohibited before ih => exact ih
  | closed before ih => exact Collection.counter_close _ ▸ ih

end Store

end RefStore
