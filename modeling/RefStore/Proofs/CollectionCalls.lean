import RefStore.Proofs.OpenWork

/-!
# Calls on collections

What a call on a collection does to its shelf, and to no other one. A call that succeeds leaves the
shelves counting the entries of the collections that are alive. After one that fails the operation can
still be given up. Main statement: `Action.run_ends`.
-/

namespace RefStore

open Collection (Roll Counted Touches Balanced)

variable {size n n' : Nat} {s : Stock} {shelves : Shelves} {roll roll₀ : Roll} {id : StorageId}
  {sh sh' : Shelf} {p : CollectionPointer} {w w₀ : Workspace}

namespace Shelf

/-- The collection that is made next on a shelf. -/
def nextCollection (sh : Shelf) (id : StorageId) (counter : CollectionId) : Collection :=
  ⟨id, ⟨sh.storage.treeFile, sh.storage.cluster, counter + 1, UInt32.ofNat sh.numbers.length⟩⟩

/-- The shelf with a slot for it. -/
def withSlot (sh : Shelf) : Shelf := { sh with numbers := sh.numbers ++ [0] }

/-- The shelf with a new entry of a collection, counted after so many others. -/
def withEntry (sh : Shelf) (c : Collection) (r : RecordRef) (value k : Int32) : Shelf :=
  { sh with
    entries := (sh.entries.filter fun e => e.key < c.key r) ++ ⟨c.key r, value⟩ ::
      sh.entries.filter fun e => c.key r < e.key
    numbers := sh.numbers.set c.pointer.slot.toNat (k + 1) }

end Shelf

namespace Collection.Balanced

variable {key : Key} {below above : List Entry} {old : Option Int32} {k k' a : Int32}

theorem number (h : Balanced p sh) (hk : sh.numbers[p.slot.toNat]? = some k) :
    k.toInt = Entries.tally sh.entries p.collection := by
  obtain ⟨n, hn, hcount⟩ := h
  obtain rfl := Option.some.inj (hn.symm.trans hk)
  exact hcount

theorem not_neg (h : Balanced p sh) (hk : sh.numbers[p.slot.toNat]? = some k) : ¬ k < 0 := by
  rw [Int32.lt_iff_toInt_lt, h.number hk]
  exact Int.not_lt.mpr (Int.natCast_nonneg _)

/-- A value is replaced. -/
theorem put_some {v : Int32} (h : Balanced p sh) (hcut : Entries.Cut sh.entries key below (some v) above)
    (value : Int32) : Balanced p { sh with entries := below ++ ⟨key, value⟩ :: above } := by
  obtain ⟨n, hn, hcount⟩ := h
  refine ⟨n, hn, ?_⟩
  rw [hcount, Entries.tally_put hcut, if_neg fun h => Option.some_ne_none v h.1, Nat.add_zero]

/-- Nothing is removed. -/
theorem remove_none (h : Balanced p sh) (hcut : Entries.Cut sh.entries key below none above) :
    Balanced p { sh with entries := below ++ above } := by
  obtain ⟨n, hn, hcount⟩ := h
  refine ⟨n, hn, ?_⟩
  rw [hcount, Entries.tally_remove hcut, if_neg fun h => Bool.false_ne_true h.1, Nat.add_zero]

/-- The slot is counted up after an entry was added. -/
theorem put_none (h : Balanced p sh) (hcut : Entries.Cut sh.entries key below none above)
    (hkey : key.collection = p.collection) (value : Int32)
    (hk : sh.numbers[p.slot.toNat]? = some k) (hmove : Bucket.Move.increment k = .ok (a, k')) :
    Balanced p { sh with
      entries := below ++ ⟨key, value⟩ :: above, numbers := sh.numbers.set p.slot.toNat k' } := by
  have hlt := (List.getElem?_eq_some_iff.mp hk).1
  rw [Bucket.Move.increment, if_neg (h.not_neg hk)] at hmove
  split at hmove
  · cases hmove
  · next hmax =>
    cases hmove
    have hnumber := h.number hk
    have hne : k.toInt ≠ 2 ^ 31 - 1 := fun he => hmax (Int32.toInt_inj.mp he)
    have hle := k.toInt_lt
    refine ⟨k + 1, List.getElem?_set_self hlt, ?_⟩
    rw [Entries.tally_put hcut, if_pos ⟨rfl, hkey⟩, Int32.toInt_add]
    exact (Int.bmod_eq_of_le (by simp; omega) (by simp; omega)).trans (by simp [hnumber])

/-- The slot is counted down after an entry was removed. -/
theorem remove_some {v : Int32} (h : Balanced p sh) (hcut : Entries.Cut sh.entries key below (some v) above)
    (hkey : key.collection = p.collection)
    (hk : sh.numbers[p.slot.toNat]? = some k) :
    ∃ k', Bucket.Move.decrement k = .ok (k', k') ∧
      Balanced p { sh with entries := below ++ above, numbers := sh.numbers.set p.slot.toNat k' } := by
  have hlt := (List.getElem?_eq_some_iff.mp hk).1
  have hnumber := h.number hk
  have htally := Entries.tally_remove hcut p.collection
  rw [if_pos ⟨rfl, hkey⟩] at htally
  have hle := k.toInt_lt
  have hne : k ≠ 0 := by
    rintro rfl
    rw [Int32.toInt_zero] at hnumber
    omega
  refine ⟨k - 1, ?_, k - 1, List.getElem?_set_self hlt, ?_⟩
  · rw [Bucket.Move.decrement, if_neg (h.not_neg hk), if_neg hne]
  · rw [Int32.toInt_sub]
    exact (Int.bmod_eq_of_le (by simp; omega) (by simp; omega)).trans (by simp; omega)

end Collection.Balanced

namespace Workspace

/-- In an operation something was done to one collection, and to nothing else. -/
structure Touched (size : Nat) (s : Stock) (shelves : Shelves) (id : StorageId) (p : CollectionPointer)
    (sh sh' : Shelf) (n : Nat) (w₀ w : Workspace) : Prop where
  store : w.store = w₀.store
  undo : w.undo = w₀.undo
  shelved : Shelved size s (Part.get w) w₀.store.registry.storages
    (Function.update shelves id (some sh')) n
  touches : Touches p sh sh'

namespace Touched

theorem start (h : w.InHand size s roll₀ shelves roll n) (hid : shelves id = some sh) :
    Touched size s shelves id p sh sh n w w := by
  refine ⟨rfl, rfl, ?_, .refl p sh⟩
  rw [← hid, Function.update_eq_self]
  exact h.now.shelved

theorem rollback_eq (h : Touched size s shelves id p sh sh' n w₀ w) : w.rollback = w₀.rollback := by
  rw [rollback, rollback, h.store, h.undo]

theorem inHand (h : Touched size s shelves id p sh sh' n' w₀ w)
    (hw : w₀.InHand size s roll₀ shelves roll n) (hid : shelves id = some sh) (hn : n ≤ n')
    (hp : p ∈ roll.pointers) (hfile : sh.storage.treeFile = p.file) {live : List CollectionPointer}
    (hsub : ∀ q ∈ live, q ∈ roll.live) (hbalanced : p ∈ live → Balanced p sh') :
    w.InHand size s roll₀ (Function.update shelves id (some sh')) { roll with live } n' := by
  refine hw.next ⟨?_, ?_, ?_⟩ (by rw [h.rollback_eq]; exact .refl _) hn
  · rw [h.store]
    exact h.shelved
  · rw [h.store]
    exact hw.now.knows.change hid h.touches.storage
  · rw [h.store]
    exact hw.now.counted.touch hid h.touches hp hfile hsub hbalanced

/-- The next change of the transaction. -/
theorem next {t : Transaction} {sh'' : Shelf} (h : Touched size s shelves id p sh sh' n w₀ w)
    (hm : t.mounted = w.store.engine.mounted)
    (hshelved : Shelved size s t w₀.store.registry.storages
      (Function.update (Function.update shelves id (some sh')) id (some sh'')) n')
    (ht : Touches p sh' sh'') : Touched size s shelves id p sh sh'' n' w₀ (Part.put t w) := by
  refine ⟨?_, h.undo, ?_, h.touches.trans ht⟩
  · show { w.store with engine := { w.store.engine with mounted := t.mounted } } = _
    rw [hm]
    exact h.store
  · rwa [Function.update_idem] at hshelved

section

variable (h : Touched size s shelves id p sh sh' n w₀ w)

include h

theorem attached : sh.storage.tree.component.isAttached ∧ sh.storage.sizes.component.isAttached := by
  rw [← h.touches.storage]
  exact h.shelved.filed.attached (h.shelved.stored (Function.update_self ..))

theorem stands : sh'.Stands size s n (Part.get w) := h.shelved.stands (Function.update_self ..)

/-- An entry is put in the tree. -/
theorem put (hn : n + 1 < 2 ^ 61) {key : Key} (hk : key.collection = p.collection) (value : Int32) :
    ∃ below old above w', Entries.Cut sh'.entries key below old above ∧
      (onTree (sh.storage.tree.put key value)).Gives w old w' ∧
      Touched size s shelves id p sh { sh' with entries := below ++ ⟨key, value⟩ :: above } (n + 1)
        w₀ w' := by
  have hatt := h.attached.1
  rw [← h.touches.storage] at hatt ⊢
  obtain ⟨below, old, above, t', hcut, hg, ha, hf⟩ := Tree.put_finds hatt h.shelved.ample
    h.shelved.ready.pageSize h.stands.tree hn key value
  exact ⟨below, old, above, _, hcut, (hg.mapError _).onPart, h.next ha.mounted
    (h.shelved.changeTree (Function.update_self ..) ha (Nat.le_succ n) hf) (.put hcut hk value)⟩

/-- An entry is removed from the tree. -/
theorem remove {key : Key} (hk : key.collection = p.collection) :
    ∃ below old above w', Entries.Cut sh'.entries key below old above ∧
      (onTree (sh.storage.tree.remove key)).Gives w old w' ∧
      Touched size s shelves id p sh { sh' with entries := below ++ above } n w₀ w' := by
  have hatt := h.attached.1
  rw [← h.touches.storage] at hatt ⊢
  obtain ⟨below, old, above, t', hcut, hg, ha, hf⟩ := Tree.remove_finds hatt h.shelved.ample
    h.shelved.ready.pageSize h.stands.tree key
  exact ⟨below, old, above, _, hcut, (hg.mapError _).onPart, h.next ha.mounted
    (h.shelved.changeTree (Function.update_self ..) ha (Nat.le_refl n) hf) (.remove hcut hk)⟩

theorem scan (r : Tree.KeyRange) (limit : Option Nat) :
    (onTree (sh.storage.tree.scan r limit)).Gives w (Tree.limited limit (r.pick sh'.entries)) w := by
  have hatt := h.attached.1
  rw [← h.touches.storage] at hatt ⊢
  exact Tree.onTree_gives
    (Tree.scan_finds hatt h.shelved.ample h.shelved.ready.pageSize h.stands.tree r limit)

/-- A move is made with the slot of the collection, or it fails and says why. -/
theorem move {α : Type} {f : SlotId → Page → Checked SizesError (α × List Write)} {move : Bucket.Move α}
    (hf : Bucket.Moves f move) {k : Int32} (hk : sh'.numbers[p.slot.toNat]? = some k)
    (operation : String) :
    (onSizes (do
      let file ← sh.storage.sizes.file
      sh.storage.sizes.during operation (SizeMap.onSlot file p.slot f))).Ends w
      (fun a w' => ∃ k', move k = .ok (a, k') ∧ Touched size s shelves id p sh
        { sh' with numbers := sh'.numbers.set p.slot.toNat k' } n w₀ w')
      fun cause w' => w'.rollback = w₀.rollback ∧
        ∃ kind, move k = .error kind ∧ cause = .error (.sizes (.slot kind p.slot)) := by
  have hatt := h.attached.2
  rw [← h.touches.storage] at hatt ⊢
  obtain ⟨outcome, t', hstart, ha, hend⟩ := SizeMap.moves_finds hatt h.shelved.ample
    h.shelved.ready.pageSize h.stands.sizes hf operation p.slot
  rw [hk] at hend
  have hrun : (onSizes (do
      let file ← sh'.storage.sizes.file
      sh'.storage.sizes.during operation (SizeMap.onSlot file p.slot f))).start w =
        (outcome.mapError .sizes, Part.put t' w) := by
    rw [onSizes, Task.start_onPart, Task.start_mapError, hstart]
  dsimp only at hend
  split at hend
  · next kind hmove =>
    obtain ⟨rfl, -⟩ := hend
    exact .error hrun ⟨(rollback_put ha.mounted).trans h.rollback_eq, kind, hmove, rfl⟩
  · next a k' hmove =>
    obtain ⟨rfl, hfinds⟩ := hend
    have hg : Task.Gives _ w a (Part.put t' w) := hrun
    exact hg.ends ⟨k', hmove, h.next ha.mounted (h.shelved.changeSizes (Function.update_self ..) ha hfinds)
      (.set sh' k')⟩

/-- A batch of entries is removed. -/
theorem removeAll {batch : List Entry} (hall : ∀ e ∈ batch, e.key.collection = p.collection) :
    ∃ sh'' w', (batch.forM fun e => do
        let _ ← onTree (sh.storage.tree.remove e.key)).Gives w () w' ∧
      Touched size s shelves id p sh sh'' n w₀ w' := by
  induction batch generalizing w sh' with
  | nil => exact ⟨sh', w, .pure () w, h⟩
  | cons e batch ih =>
    obtain ⟨_, _, _, w₁, -, hg, h₁⟩ := h.remove (hall e List.mem_cons_self)
    obtain ⟨sh'', w', hg', h'⟩ := ih h₁ fun e he => hall e (List.mem_cons_of_mem _ he)
    exact ⟨sh'', w', (hg.bind (.pure () w₁)).bind hg', h'⟩

/-- Only entries of the collection are removed, batch by batch. -/
theorem removeEntries_ends {high : Key} (fuel : Nat) {low : Key} {includesLow : Bool}
    (hrange : ∀ key, (⟨low, includesLow, high, true⟩ : Tree.KeyRange).Covers key →
      key.collection = p.collection) :
    (removeEntries sh.storage.tree high fuel low includesLow).Ends w
      (fun _ w' => ∃ sh'', Touched size s shelves id p sh sh'' n w₀ w')
      fun _ w' => w'.rollback = w₀.rollback := by
  induction fuel generalizing w sh' low includesLow with
  | zero =>
    have hstart : (removeEntries sh.storage.tree high 0 low includesLow).start w =
        (.error (.fault .endless), w) := rfl
    exact .error hstart h.rollback_eq
  | succ fuel ih =>
    refine (h.scan ⟨low, includesLow, high, true⟩ (some 256)).bind_ends ?_
    generalize hb : Tree.limited (some 256) _ = batch
    have hcovers : ∀ e ∈ batch, (⟨low, includesLow, high, true⟩ : Tree.KeyRange).Covers e.key := by
      intro e he
      rw [← hb] at he
      exact (Tree.KeyRange.mem_pick.mp (List.mem_of_mem_take he)).2
    cases hlast : batch.getLast? with
    | none => exact Task.Gives.ends (.pure () w) ⟨sh', h⟩
    | some last =>
      obtain ⟨sh'', w', hg, h'⟩ := h.removeAll fun e he => hrange _ (hcovers e he)
      refine hg.bind_ends (ih h' fun key hkey => hrange key ?_)
      -- keys above the last one of the batch are in the range that the batch was taken from
      exact .after (hcovers last (List.mem_of_getLast? hlast)) hkey

end

end Touched

section

variable (h : w.InHand size s roll₀ shelves roll n)

include h

/-- The tree of a collection without a shelf is not seen. -/
theorem InHand.unseen {c : Collection} {st : ClusterStorage}
    (hst : w.store.registry.storages[c.storage]? = some st) (hno : shelves c.storage = none) :
    st.tree.component.isAttached ∧ ∀ x, ¬ (Part.get w : Transaction).operation.Sees s st.treeFile x :=
  ⟨(h.now.shelved.filed.attached hst).1, h.now.shelved.unseen hst hno⟩

/-- What is done to that tree fails, and such a collection is not alive. -/
theorem InHand.unseen_ends {α β : Type} {c : Collection} (hc : c ∈ roll.handles) (hno : shelves c.storage = none)
    {t : Task Transaction TreeError α} {cause : Failure TreeError}
    (hrefused : t.start (Part.get w) = (.error cause, Part.get w)) (f : α → Task Workspace CollectionError β)
    {good : β → Workspace → Prop} :
    (onTree t >>= f).Ends w good fun _ w' => w'.rollback.Rests size s roll₀ n ∧ c.pointer ∉ roll.live := by
  have hstart : (onTree t).start w = (.error (cause.map .tree), w) := by
    rw [onTree, Task.start_onPart, Task.start_mapError, hrefused]
    rfl
  refine .error_bind hstart ⟨h.back, fun hl => ?_⟩
  obtain ⟨sh, hid, -⟩ := h.now.exists_shelf hc hl
  rw [hno] at hid
  cases hid

/-- A put counts up if the entry is new. It fails only if the count cannot go up, or if the collection
is not alive. -/
theorem InHand.put_ends {c : Collection} (hc : c ∈ roll.handles) (hn : n + 1 < 2 ^ 61) (r : RecordRef)
    (value : Int32) : (c.put r value).Ends w
      (fun _ w' => ∃ shelves', w'.InHand size s roll₀ shelves' roll (n + 1))
      fun cause w' => w'.rollback.Rests size s roll₀ n ∧
        (c.pointer ∈ roll.live → cause = .error (.sizes (.slot .overflow c.pointer.slot))) := by
  obtain ⟨hp, st, hst, hf⟩ := h.now.counted.handles c hc
  refine (storageAt_gives hst).bind_ends ?_
  cases hsh : shelves c.storage with
  | none =>
    obtain ⟨hatt, hno⟩ := h.unseen hst hsh
    obtain ⟨cause, hrefused⟩ := Tree.put_unseen hatt h.now.shelved.ready.based hno (c.key r) value
    refine (h.unseen_ends hc hsh hrefused _).mono (fun _ _ h' => h') fun _ _ hends => ?_
    exact ⟨hends.1, fun hl => absurd hl hends.2⟩
  | some sh =>
    obtain rfl : st = sh.storage := Option.some.inj (hst.symm.trans (h.now.shelved.stored hsh))
    have hkey : (c.key r).collection = c.pointer.collection := rfl
    obtain ⟨below, old, above, w₁, hcut, hg, h₁⟩ := (Touched.start h hsh).put hn hkey value
    refine hg.bind_ends ?_
    cases old with
    | some v =>
      refine Task.Gives.ends (.pure _ w₁) ⟨_, h₁.inHand h hsh (Nat.le_succ n) hp hf (fun _ => id) fun hl => ?_⟩
      exact (h.now.balanced hl hsh hf).put_some hcut value
    | none =>
      obtain ⟨k, hk⟩ : ∃ k, sh.numbers[c.pointer.slot.toNat]? = some k :=
        ⟨_, List.getElem?_eq_getElem (h.now.counted.slotted _ hp hsh hf)⟩
      refine ((h₁.move Bucket.increment_moves hk "increment_size").mono (fun _ _ => id) ?_).bind ?_
      · rintro cause w' ⟨hw', kind, hmove, rfl⟩
        refine ⟨hw' ▸ h.back, fun hl => ?_⟩
        rw [Bucket.Move.increment, if_neg ((h.now.balanced hl hsh hf).not_neg hk)] at hmove
        split at hmove <;> cases hmove
        rfl
      · rintro a w' ⟨k', hmove, h₂⟩
        refine Task.Gives.ends (.pure _ w') ⟨_, h₂.inHand h hsh (Nat.le_succ n) hp hf (fun _ => id) fun hl => ?_⟩
        exact (h.now.balanced hl hsh hf).put_none hcut rfl value hk hmove

/-- A new entry is put in its place, and counted while the slot can count on. -/
theorem InHand.put_adds {c : Collection} (hc : c ∈ roll.handles) (hl : c.pointer ∈ roll.live)
    (hn : n + 1 < 2 ^ 61) (hsh : shelves c.storage = some sh) {r : RecordRef}
    (hnew : ∀ e ∈ sh.entries, e.key ≠ c.key r) {k : Int32} (hk : sh.numbers[c.pointer.slot.toNat]? = some k)
    (hmax : k ≠ Int32.maxValue) (value : Int32) :
    ∃ w', (c.put r value).Gives w none w' ∧ w'.store = w.store ∧
      w'.InHand size s roll₀ (Function.update shelves c.storage (some (sh.withEntry c r value k))) roll (n + 1) := by
  obtain ⟨hp, st, hst, hf⟩ := h.now.counted.handles c hc
  obtain rfl : st = sh.storage := Option.some.inj (hst.symm.trans (h.now.shelved.stored hsh))
  have hkey : (c.key r).collection = c.pointer.collection := rfl
  have hb := h.now.balanced hl hsh hf
  obtain ⟨below, old, above, w₁, hcut, hg, h₁⟩ := (Touched.start h hsh).put hn hkey value
  obtain rfl : old = none := by
    refine Option.eq_none_iff_forall_ne_some.mpr fun v hv => ?_
    subst hv
    refine hnew ⟨c.key r, v⟩ ?_ rfl
    rw [hcut.eq]
    simp
  have hmove : Bucket.Move.increment k = .ok (k + 1, k + 1) := by
    rw [Bucket.Move.increment, if_neg (hb.not_neg hk), if_neg hmax]
  have hcount := h₁.move Bucket.increment_moves hk "increment_size"
  rcases hr : (onSizes (sh.storage.sizes.increment c.pointer.slot)).start w₁ with ⟨cause | a, w'⟩
  · obtain ⟨-, kind, hfail, -⟩ := hcount.of_error hr
    rw [hmove] at hfail
    cases hfail
  · obtain ⟨k', hdone, h₂⟩ := hcount.of_gives hr
    rw [hmove] at hdone
    cases hdone
    have hcounted : (onSizes (sh.storage.sizes.increment c.pointer.slot)).Gives w₁ (k + 1) w' := hr
    refine ⟨w', (storageAt_gives hst).bind (hg.bind (hcounted.bind (.pure _ w'))), h₂.store, ?_⟩
    rw [Shelf.withEntry, ← hcut.below_eq, ← hcut.above_eq]
    exact h₂.inHand h hsh (Nat.le_succ n) hp hf (fun _ => id) fun _ => hb.put_none hcut rfl value hk hmove

/-- A remove counts down if there was an entry. It does not fail if the collection is alive. -/
theorem InHand.remove_ends {c : Collection} (hc : c ∈ roll.handles) (r : RecordRef) : (c.remove r).Ends w
    (fun _ w' => ∃ shelves', w'.InHand size s roll₀ shelves' roll n)
    fun _ w' => w'.rollback.Rests size s roll₀ n ∧ c.pointer ∉ roll.live := by
  obtain ⟨hp, st, hst, hf⟩ := h.now.counted.handles c hc
  refine (storageAt_gives hst).bind_ends ?_
  cases hsh : shelves c.storage with
  | none =>
    obtain ⟨hatt, hno⟩ := h.unseen hst hsh
    obtain ⟨cause, hrefused⟩ := Tree.remove_unseen hatt h.now.shelved.ready.based hno (c.key r)
    exact h.unseen_ends hc hsh hrefused _
  | some sh =>
    obtain rfl : st = sh.storage := Option.some.inj (hst.symm.trans (h.now.shelved.stored hsh))
    have hkey : (c.key r).collection = c.pointer.collection := rfl
    obtain ⟨below, old, above, w₁, hcut, hg, h₁⟩ := (Touched.start h hsh).remove hkey
    refine hg.bind_ends ?_
    cases old with
    | none =>
      refine Task.Gives.ends (.pure _ w₁) ⟨_, h₁.inHand h hsh (Nat.le_refl n) hp hf (fun _ => id) fun hl => ?_⟩
      exact (h.now.balanced hl hsh hf).remove_none hcut
    | some v =>
      obtain ⟨k, hk⟩ : ∃ k, sh.numbers[c.pointer.slot.toNat]? = some k :=
        ⟨_, List.getElem?_eq_getElem (h.now.counted.slotted _ hp hsh hf)⟩
      refine ((h₁.move Bucket.decrement_moves hk "decrement_size").mono (fun _ _ => id) ?_).bind ?_
      · rintro cause w' ⟨hw', kind, hmove, rfl⟩
        refine ⟨hw' ▸ h.back, fun hl => ?_⟩
        obtain ⟨k', hk', -⟩ := (h.now.balanced hl hsh hf).remove_some hcut rfl hk
        rw [hk'] at hmove
        cases hmove
      · rintro a w' ⟨k', hmove, h₂⟩
        refine Task.Gives.ends (.pure _ w') ⟨_, h₂.inHand h hsh (Nat.le_refl n) hp hf (fun _ => id) fun hl => ?_⟩
        obtain ⟨k'', hk'', hb⟩ := (h.now.balanced hl hsh hf).remove_some hcut rfl hk
        obtain ⟨-, rfl⟩ : k'' = a ∧ k'' = k' := by simpa [hk''] using hmove
        exact hb

/-- The entries of a collection are removed and its slot is retired. -/
theorem InHand.delete_ends (hp : p ∈ roll.pointers) : (deleteCollection p).Ends w
    (fun _ w' => w'.store = w.store ∧ ∃ shelves', w'.InHand size s roll₀ shelves' (roll.strike p) n)
    fun _ w' => w'.rollback.Rests size s roll₀ n := by
  refine ((Store.loadCollection_cases h.now hp).onPart.mono (fun _ _ => id) ?_).bind ?_
  · rintro cause w' ⟨_, rfl, rfl⟩
    exact h.back
  rintro ⟨id, q⟩ w' ⟨_, ⟨rfl, rfl, sh, hid, hf⟩, rfl⟩
  refine (storageAt_gives (h.now.shelved.stored hid)).bind_ends ?_
  have h₀ : Touched size s shelves id q sh sh n w w := .start h hid
  obtain ⟨k, hsteps⟩ := Tree.steps_finds h₀.shelved.ample h₀.shelved.ready.pageSize h₀.stands.tree
  have hbound : (entryBound sh.storage.tree.component.file).Gives (Part.get w) _ (Part.get w) :=
    hsteps.attempt.bind ((Task.Gives.pure k _).bind ((Transaction.pageSize_gives _).embed.bind (.pure _ _)))
  refine (Tree.onTree_gives hbound).bind_ends ?_
  refine ((h₀.removeEntries_ends _ fun key hkey => Key.covers_range.mp hkey).mono (fun _ _ hw' => hw')
    fun _ w' hw' => hw' ▸ h.back).bind ?_
  rintro _ w₁ ⟨sh₁, h₁⟩
  obtain ⟨k, hk⟩ : ∃ k, sh₁.numbers[q.slot.toNat]? = some k := by
    refine ⟨_, List.getElem?_eq_getElem ?_⟩
    rw [h₁.touches.length]
    exact h.now.counted.slotted _ hp hid hf
  refine (h₁.move Bucket.delete_moves hk "remove").mono ?_ fun _ w' hw' => hw'.1 ▸ h.back
  rintro _ w₂ ⟨k', -, h₂⟩
  refine ⟨h₂.store, _, h₂.inHand h hid (Nat.le_refl n) hp hf (fun _ hq => (List.mem_filter.mp hq).1) fun hl => ?_⟩
  simp at hl

/-- In a cluster whose storage is at hand, a new collection gets the next id and the next slot. It cannot be
made only if no slots are left. -/
theorem InHand.createIn_ends {shelves₁ : Shelves} {w₁ : Workspace} (h₁ : w₁.InHand size s roll₀ shelves₁ roll n)
    (hg₁ : (clusterStorage sh.storage.cluster).Gives w id w₁) (hid : shelves₁ id = some sh)
    (hmax : w₁.counter ≠ Int64.maxValue) : (createCollection sh.storage.cluster).Ends w
      (fun c w' => c = sh.nextCollection id w₁.counter ∧ w'.counter = w₁.counter + 1 ∧
        w'.store.engine.mounted = w₁.store.engine.mounted ∧
        w'.InHand size s roll₀ (Function.update shelves₁ id (some sh.withSlot)) ((roll.enter c.pointer).lend c) n)
      fun _ w' => w'.rollback.Rests size s roll₀ n ∧ UInt32.size ≤ sh.numbers.length := by
  have hlt : w₁.counter < w₁.counter + 1 := lt_add_one h₁.now.counted.nonneg hmax
  have hst := h₁.now.shelved.stored hid
  have h₂ := h₁.counted hmax
  refine (checkAccess_of_allowed h.now.knows.allowed).bind_ends (hg₁.bind_ends ?_)
  refine (storageAt_gives hst).bind_ends ((h₁.allocateId_gives hid hmax).bind_ends ?_)
  obtain ⟨outcome, t', hstart, hm, hok, hadd⟩ := SizeMap.add_finds (h₂.now.shelved.filed.attached hst).2
    h₂.now.shelved.ample h₂.now.shelved.ready.pageSize (h₂.now.shelved.stands hid).sizes
  have hrun : (onSizes sh.storage.sizes.add).start w₁.counted =
      (outcome.mapError .sizes, Part.put t' w₁.counted) := by
    rw [onSizes, Task.start_onPart, Task.start_mapError, hstart]
  cases outcome with
  | error cause =>
    have hfull : UInt32.size ≤ sh.numbers.length := Nat.le_of_not_lt fun hlt => Bool.false_ne_true (hok hlt)
    exact .error_bind hrun ⟨by rw [rollback_put hm]; exact h₂.back, hfull⟩
  | ok slot =>
    obtain ⟨hslot, ha, hfinds⟩ := hadd slot rfl
    have hg : (onSizes sh.storage.sizes.add).Gives w₁.counted slot (Part.put t' w₁.counted) := hrun
    let p : CollectionPointer := ⟨sh.storage.treeFile, sh.storage.cluster, w₁.counter + 1, slot⟩
    have hentered := h₁.now.counted.enter (p := p) hid hst hlt rfl rfl hslot fun hx hf =>
      h₁.now.knows.sole hx hid hf
    have hlent := hentered.lend (c := ⟨id, p⟩) List.mem_cons_self hst rfl
    have hnow : Tidy size s t' w₁.counted.store.registry _ ((roll.enter p).lend ⟨id, p⟩) n :=
      ⟨h₂.now.shelved.changeSizes hid ha hfinds, h₂.now.knows.change hid rfl, hlent⟩
    have hmade : (⟨id, p⟩ : Collection) = sh.nextCollection id w₁.counter := by
      rw [Shelf.nextCollection, ← hslot, UInt32.ofNat_toNat]
    exact hg.bind_ends (Task.Gives.ends (.pure _ _) ⟨hmade, rfl, hm, h₂.put hm hnow (Nat.le_refl n)⟩)

/-- While there are slots, it is made. -/
theorem InHand.createIn_gives {shelves₁ : Shelves} {w₁ : Workspace} (h₁ : w₁.InHand size s roll₀ shelves₁ roll n)
    (hg₁ : (clusterStorage sh.storage.cluster).Gives w id w₁) (hid : shelves₁ id = some sh)
    (hmax : w₁.counter ≠ Int64.maxValue) (hslots : sh.numbers.length < UInt32.size) :
    ∃ w', (createCollection sh.storage.cluster).Gives w (sh.nextCollection id w₁.counter) w' ∧
      w'.counter = w₁.counter + 1 ∧ w'.store.engine.mounted = w₁.store.engine.mounted ∧
      w'.InHand size s roll₀ (Function.update shelves₁ id (some sh.withSlot))
        ((roll.enter (sh.nextCollection id w₁.counter).pointer).lend (sh.nextCollection id w₁.counter)) n := by
  have hends := h.createIn_ends h₁ hg₁ hid hmax
  rcases hr : (createCollection sh.storage.cluster).start w with ⟨cause | c, w'⟩
  · exact absurd (hends.of_error hr).2 (Nat.not_le.mpr hslots)
  · obtain ⟨rfl, hmade⟩ := hends.of_gives hr
    exact ⟨w', hr, hmade⟩

/-- So it is in any cluster. File ids are needed only for one that is new. -/
theorem InHand.createCollection_ends (cluster : ClusterId) (hmax : w.counter ≠ Int64.maxValue)
    (hroom : w.store.registry.registeredId? cluster = none →
      w.store.engine.mounted.volume.catalog.nextId.toNat + 2 < UInt32.size) : (createCollection cluster).Ends w
      (fun c w' => ∃ shelves', w'.InHand size s roll₀ shelves' ((roll.enter c.pointer).lend c) n)
      fun _ w' => w'.rollback.Rests size s roll₀ n ∧
        ∃ id sh, shelves id = some sh ∧ sh.storage.cluster = cluster ∧ UInt32.size ≤ sh.numbers.length := by
  obtain ⟨id, sh, shelves₁, w₁, hg₁, hid, rfl, hknown, hcount, h₁⟩ := h.clusterStorage_gives cluster hroom
  refine (h.createIn_ends h₁ hg₁ hid (by rwa [hcount])).mono ?_ ?_
  · rintro c w' ⟨-, -, -, h'⟩
    exact ⟨_, h'⟩
  · rintro cause w' ⟨hback, hfull⟩
    refine ⟨hback, ?_⟩
    rcases hknown with hold | hnew
    · exact ⟨id, sh, hold, rfl, hfull⟩
    · rw [hnew] at hfull
      exact absurd hfull (by decide)

theorem InHand.createOwned_ends (cluster : ClusterId) (hmax : w.counter ≠ Int64.maxValue)
    (hroom : w.store.registry.registeredId? cluster = none →
      w.store.engine.mounted.volume.catalog.nextId.toNat + 2 < UInt32.size)
    (session : Session) (owner : Option Uuid) :
    (createOwned session cluster owner).Ends w
      (fun made w' => ∃ shelves', w'.InHand size s roll₀ shelves' (roll.enter made.1) n)
      fun _ w' => w'.rollback.Rests size s roll₀ n := by
  refine ((h.createCollection_ends cluster hmax hroom).mono (fun _ _ h' => h') fun _ _ hb => hb.1).bind ?_
  rintro c w' ⟨shelves', h'⟩
  refine Task.Gives.ends (.pure _ w') ⟨shelves', h'.next ⟨h'.now.shelved, h'.now.knows, ?_⟩ (.refl _)
    (Nat.le_refl n)⟩
  have hcounted := h'.now.counted
  exact ⟨hcounted.nonneg, hcounted.entries, hcounted.housed, hcounted.numbered, hcounted.slotted,
    hcounted.apart, fun c hc => hcounted.handles c (List.mem_cons_of_mem _ hc), hcounted.live⟩

/-- A handle to a collection is made from its pointer. -/
theorem InHand.load_ends (hp : p ∈ roll.pointers) :
    (liftM (Store.loadCollection p) : Task Workspace CollectionError Collection).Ends w
      (fun c w' => w'.InHand size s roll₀ shelves (roll.lend c) n)
      fun _ w' => w'.rollback.Rests size s roll₀ n := by
  refine (Store.loadCollection_cases h.now hp).onPart.mono ?_ ?_
  · rintro ⟨id, q⟩ w' ⟨_, ⟨rfl, rfl, sh, hid, hf⟩, rfl⟩
    exact h.next ⟨h.now.shelved, h.now.knows, h.now.counted.lend hp (h.now.shelved.stored hid) hf⟩
      (.refl _) (Nat.le_refl n)
  · rintro cause w' ⟨_, rfl, rfl⟩
    exact h.back

theorem InHand.dropCluster_ends (cluster : ClusterId) : (dropCluster cluster).Ends w
    (fun _ w' => ∃ shelves', w'.InHand size s roll₀ shelves' (roll.strikeCluster cluster) n)
    fun _ w' => w'.rollback.Rests size s roll₀ n := by
  by_cases hex : ∃ id sh, shelves id = some sh ∧ sh.storage.cluster = cluster
  · obtain ⟨id, sh, hid, rfl⟩ := hex
    obtain ⟨w', hg, -, h'⟩ := h.dropCluster_gives hid
    exact hg.ends ⟨_, h'⟩
  · obtain ⟨cause, hrefused⟩ := h.dropCluster_refused fun hid hc => hex ⟨_, _, hid, hc⟩
    exact .error hrefused h.back

end

end Workspace

namespace Collection

/-- What an operation does to collections. -/
inductive Action where
  | create (cluster : ClusterId)
  | createOwned (session : Session) (cluster : ClusterId) (owner : Option Uuid)
  | load (p : CollectionPointer)
  | put (c : Collection) (r : RecordRef) (value : Int32)
  | remove (c : Collection) (r : RecordRef)
  | delete (p : CollectionPointer)
  | dropCluster (cluster : ClusterId)

namespace Action

/-- Run an action, and say what it does to the roll. -/
def run : Action → Task Workspace CollectionError (Roll → Roll)
  | .create cluster => do
    let c ← Workspace.createCollection cluster
    return fun roll => (roll.enter c.pointer).lend c
  | .createOwned session cluster owner => do
    let made ← Workspace.createOwned session cluster owner
    return Roll.enter made.1
  | .load p => do
    let c ← (Store.loadCollection p : Task Store CollectionError Collection)
    return Roll.lend c
  | .put c r value => do
    let _ ← c.put r value
    return fun roll => roll
  | .remove c r => do
    let _ ← c.remove r
    return fun roll => roll
  | .delete p => do
    Workspace.deleteCollection p
    return Roll.strike p
  | .dropCluster cluster => do
    Workspace.dropCluster cluster
    return Roll.strikeCluster cluster

theorem create_gives {cluster : ClusterId} {c : Collection} {w' : Workspace}
    (h : (Workspace.createCollection cluster).Gives w c w') :
    (create cluster).run.Gives w (fun roll => (roll.enter c.pointer).lend c) w' := h.bind (.pure _ w')

theorem put_gives {c : Collection} {r : RecordRef} {value : Int32} {old : Option Int32} {w' : Workspace}
    (h : (c.put r value).Gives w old w') : (put c r value).run.Gives w (fun roll => roll) w' := h.bind (.pure _ w')

/-- Only handles and pointers of collections on the roll are used. -/
def Fair (roll : Roll) : Action → Prop
  | .put c _ _ | .remove c _ => c ∈ roll.handles
  | .load p | .delete p => p ∈ roll.pointers
  | _ => True

/-- There is an id left for a new collection, and there are two for the files of a new cluster. -/
def HasRoom (w : Workspace) : Action → Prop
  | .create cluster | .createOwned _ cluster _ => w.counter ≠ Int64.maxValue ∧
    (w.store.registry.registeredId? cluster = none →
      w.store.engine.mounted.volume.catalog.nextId.toNat + 2 < UInt32.size)
  | _ => True

/-- An action that succeeds leaves its workspace in order. After one that fails the operation can be
given up. -/
theorem run_ends (a : Action) (h : w.InHand size s roll₀ shelves roll n) (fair : a.Fair roll)
    (room : a.HasRoom w) (hn : n + 1 < 2 ^ 61) : a.run.Ends w
      (fun f w' => ∃ shelves', w'.InHand size s roll₀ shelves' (f roll) (n + 1))
      fun _ w' => w'.rollback.Rests size s roll₀ n := by
  have hlater {w' : Workspace} {shelves' : Shelves} {roll' : Roll}
      (h' : w'.InHand size s roll₀ shelves' roll' n) :
      ∃ shelves', w'.InHand size s roll₀ shelves' roll' (n + 1) := ⟨shelves', h'.mono (Nat.le_succ n)⟩
  cases a with
  | create cluster =>
    refine ((h.createCollection_ends cluster room.1 room.2).mono (fun _ _ h' => h') fun _ _ hb => hb.1).bind ?_
    rintro c w' ⟨shelves', h'⟩
    exact Task.Gives.ends (.pure _ w') (hlater h')
  | createOwned session cluster owner =>
    refine (h.createOwned_ends cluster room.1 room.2 session owner).bind ?_
    rintro made w' ⟨shelves', h'⟩
    exact Task.Gives.ends (.pure _ w') (hlater h')
  | load p =>
    refine (h.load_ends fair).bind fun c w' h' => ?_
    exact Task.Gives.ends (.pure _ w') (hlater h')
  | put c r value =>
    refine ((h.put_ends fair hn r value).mono (fun _ _ h' => h') fun _ _ hb => hb.1).bind ?_
    exact fun old w' h' => Task.Gives.ends (.pure _ w') h'
  | remove c r =>
    refine ((h.remove_ends fair r).mono (fun _ _ h' => h') fun _ _ hb => hb.1).bind ?_
    rintro old w' ⟨shelves', h'⟩
    exact Task.Gives.ends (.pure _ w') (hlater h')
  | delete p =>
    refine (h.delete_ends fair).bind ?_
    rintro _ w' ⟨-, shelves', h'⟩
    exact Task.Gives.ends (.pure _ w') (hlater h')
  | dropCluster cluster =>
    refine (h.dropCluster_ends cluster).bind ?_
    rintro _ w' ⟨shelves', h'⟩
    exact Task.Gives.ends (.pure _ w') (hlater h')

end Action

end Collection

end RefStore
