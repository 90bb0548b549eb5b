import Mathlib.Algebra.Group.Nat.Defs
import RefStore.Proofs.Maps
import RefStore.Proofs.Residents
import RefStore.Proofs.TreeEntries
import RefStore.Proofs.TreeFiles
import RefStore.Settings

/-!
# Trees as maps

A tree answers like a map from keys to values, over any run of calls, commits and operations given
up. Beside the engine a run keeps two maps: the committed one, and that of the operation in flight.
Main statement: `Reachable.calls_answered`.
-/

namespace RefStore.Tree

/-! ## Maps -/

abbrev KeyMap := Std.TreeMap Key Int32

/-- Entries that are those of a map. -/
structure Models (m : KeyMap) (es : List Entry) : Prop where
  entry : ∀ key value, m[key]? = some value ↔ ⟨key, value⟩ ∈ es
  size : m.size = es.length

namespace Models

variable {m : KeyMap} {es below above : List Entry} {key : Key} {old : Option Int32}

theorem empty : Models ∅ [] := ⟨by simp, rfl⟩

/-- The value that the entries have at a key. -/
theorem value (h : Models m es) (hcut : Entries.Cut es key below old above) : m[key]? = old := by
  apply Option.ext
  intro v
  exact (h.entry key v).trans hcut.mem_self

theorem contains_iff (h : Models m es) (hcut : Entries.Cut es key below old above) :
    m.contains key = old.isSome := by
  rw [← h.value hcut, Std.TreeMap.contains_eq_isSome_getElem?]

theorem put (h : Models m es) (hcut : Entries.Cut es key below old above) (value : Int32) :
    Models (m.insert key value) (below ++ ⟨key, value⟩ :: above) where
  entry k v := by
    rw [lookup_insert]
    by_cases hk : k = key
    · subst hk
      rw [if_pos rfl, (hcut.put value).mem_self]
    · rw [if_neg hk, h.entry, hcut.mem_of_ne hk, (hcut.put value).mem_of_ne hk]
  size := by
    rw [Std.TreeMap.size_insert, h.contains_iff hcut, h.size, hcut.length_eq, List.length_append,
      List.length_cons]
    cases old <;> simp <;> omega

theorem remove (h : Models m es) (hcut : Entries.Cut es key below old above) :
    Models (m.erase key) (below ++ above) where
  entry k v := by
    rw [lookup_erase]
    by_cases hk : k = key
    · subst hk
      rw [if_pos rfl, hcut.drop.mem_self]
    · rw [if_neg hk, h.entry, hcut.mem_of_ne hk, hcut.drop.mem_of_ne hk]
  size := by
    rw [Std.TreeMap.size_erase, h.contains_iff hcut, h.size, hcut.length_eq, List.length_append]
    cases old with
    | none => simp
    | some v =>
      simp only [Option.isSome_some, if_true, Option.toList_some, List.length_singleton]
      omega

end Models

/-! ## Calls -/

inductive Call where
  | put (key : Key) (value : Int32)
  | remove (key : Key)
  | get (key : Key)
  | count

inductive Answer where
  | value (v : Option Int32)
  | count (n : Nat)

namespace Call

def run (tree : Tree) : Call → Task Transaction TreeError Answer
  | put key value => do return .value (← tree.put key value)
  | remove key => do return .value (← tree.remove key)
  | get key => do return .value (← tree.get key)
  | count => do return .count (← tree.entryCount).toNat

/-- What a map answers, and the map after the call. -/
def on (m : KeyMap) : Call → Answer × KeyMap
  | put key value => (.value m[key]?, m.insert key value)
  | remove key => (.value m[key]?, m.erase key)
  | get key => (.value m[key]?, m)
  | count => (.count m.size, m)

def isRead : Call → Bool
  | get _ | count => true
  | put .. | remove _ => false

def puts : Call → Nat
  | put .. => 1
  | _ => 0

end Call

/-- A transaction shows a tree in order with the entries of a map. The number of puts bounds its
size. -/
def Stores (t : Transaction) (file : FileId) (base : List Page) (m : KeyMap) (puts : Nat) : Prop :=
  ∃ s h, ∃ b : Shape h, Shows t file base s ∧ Intact t.mounted.volume.pageSize s b ∧
    Models m b.entries ∧ b.tips.length ≤ puts + 1 ∧ b.entries.length ≤ puts

namespace Stores

variable {t : Transaction} {tree : Tree} {base : List Page} {m : KeyMap} {n : Nat}

theorem read (h : Stores t tree.component.file base m n) (hatt : tree.component.isAttached) (call : Call)
    (hread : call.isRead = true) : (call.run tree).Gives t (call.on m).1 t ∧ (call.on m).2 = m := by
  obtain ⟨s, _, b, hs, hb, hm, -, -⟩ := h
  cases call with
  | put key value => cases hread
  | remove key => cases hread
  | get key =>
    obtain ⟨below, old, above, hcut, hg⟩ := hs.get hatt hb key
    refine ⟨hg.bind ?_, rfl⟩
    rw [← hm.value hcut]
    exact .pure _ t
  | count =>
    refine ⟨(hs.entryCount hatt).bind ?_, rfl⟩
    rw [hb.count, ← hm.size]
    exact .pure _ t

/-- A call is answered as by the map, and the tree has the entries of the map after it. -/
theorem call (h : Stores t tree.component.file base m n) (hatt : tree.component.isAttached)
    (hample : Ample t.mounted.volume.pageSize) (call : Call) (hn : n + call.puts < 2 ^ 61) :
    ∃ t', (call.run tree).Gives t (call.on m).1 t' ∧
      Transaction.Alters tree.component.file t t' ∧
      Stores t' tree.component.file base (call.on m).2 (n + call.puts) := by
  have hmax : UInt64.size = 2 ^ 64 := rfl
  cases call with
  | put key value =>
    obtain ⟨s, _, b, hs, hb, hm, htips, hes⟩ := h
    have hsize := hb.size_le hs.size_pos
    simp only [Call.puts] at hn
    obtain ⟨below, old, above, t', s', h', b', hcut, hg, hu⟩ :=
      hs.put hatt hb hample (by omega) (by omega) key value
    have hlen := hcut.length_put_le value
    refine ⟨t', hg.bind ?_, hu.alters, s', h', b', hu.shows, ?_, hu.entries ▸ hm.put hcut value, ?_, ?_⟩
    · rw [← hm.value hcut]
      exact .pure _ t'
    · rw [hu.alters.mounted]
      exact hu.intact
    · exact Nat.le_trans hu.tips (Nat.succ_le_succ htips)
    · rw [hu.entries]
      exact Nat.le_trans hlen (Nat.succ_le_succ hes)
  | remove key =>
    obtain ⟨s, _, b, hs, hb, hm, htips, hes⟩ := h
    obtain ⟨below, old, above, t', s', h', b', hcut, hg, hu⟩ := hs.remove hatt hb key
    refine ⟨t', hg.bind ?_, hu.alters, s', h', b', hu.shows, ?_, hu.entries ▸ hm.remove hcut, ?_, ?_⟩
    · rw [← hm.value hcut]
      exact .pure _ t'
    · rw [hu.alters.mounted]
      exact hu.intact
    · exact Nat.le_trans hu.tips htips
    · rw [hu.entries]
      exact Nat.le_trans hcut.length_drop_le hes
  | get key =>
    obtain ⟨hg, -⟩ := h.read hatt (.get key) rfl
    exact ⟨t, hg, .refl _ t, h⟩
  | count =>
    obtain ⟨hg, -⟩ := h.read hatt .count rfl
    exact ⟨t, hg, .refl _ t, h⟩

end Stores

/-! ## Runs -/

/-- Engines reached from the creation of a tree, with the map that is committed if there is one, the
operation in flight if there is one with its map, and the number of puts so far. -/
inductive Reachable (tree : Tree) :
    Engine → Option KeyMap → Option (Operation × KeyMap) → Nat → Prop where
  | created {settings : Settings} {e₀ e : Engine} {op : Operation} {detached : Tree} {t : Transaction}
      (valid : settings.validate = .ok ()) (pages : e₀.mounted.volume.pageSize = settings.pageSize)
      (start : Engine.start.Gives e₀ op e) (create : detached.create.Gives ⟨e.mounted, op⟩ tree t)
      (attached : tree.component.isAttached) :
      Reachable tree { e with mounted := t.mounted } none (some (t.operation, ∅)) 0
  | call {e : Engine} {committed : Option KeyMap} {op : Operation} {m : KeyMap} {n : Nat}
      (h : Reachable tree e committed (some (op, m)) n) (call : Call) {outcome : Checked TreeError Answer}
      {t : Transaction} (run : (call.run tree).start ⟨e.mounted, op⟩ = (outcome, t)) :
      Reachable tree { e with mounted := t.mounted } committed (some (t.operation, (call.on m).2))
        (n + call.puts)
  | view {e : Engine} {m : KeyMap} {flight : Option (Operation × KeyMap)} {n : Nat}
      (h : Reachable tree e (some m) flight n) (call : Call) (read : call.isRead = true)
      {outcome : Checked TreeError Answer} {t : Transaction}
      (run : (call.run tree).start ⟨e.mounted, .none⟩ = (outcome, t)) :
      Reachable tree { e with mounted := t.mounted } (some m) flight n
  | elsewhere {e : Engine} {committed : Option KeyMap} {op : Operation} {m : KeyMap} {n : Nat}
      (h : Reachable tree e committed (some (op, m)) n) {other : FileId}
      (apart : other ≠ tree.component.file) {t : Transaction}
      (alters : Transaction.Alters other ⟨e.mounted, op⟩ t) :
      Reachable tree e committed (some (t.operation, m)) n
  | commit {e e' : Engine} {committed : Option KeyMap} {op : Operation} {m : KeyMap} {n : Nat}
      (h : Reachable tree e committed (some (op, m)) n) (run : (Engine.commit op).Gives e () e') :
      Reachable tree e' (some m) none n
  | failed {e e' : Engine} {committed : Option KeyMap} {op : Operation} {m : KeyMap} {n : Nat}
      (h : Reachable tree e committed (some (op, m)) n) {cause : StorageError}
      (run : (Engine.commit op).start e = (.error (.error cause), e'))
      (usable : e'.journal.broken = false) : Reachable tree e' committed none n
  | giveUp {e : Engine} {committed : Option KeyMap} {op : Operation} {m : KeyMap} {n : Nat}
      (h : Reachable tree e committed (some (op, m)) n) : Reachable tree e committed none n
  | start {e e' : Engine} {m : KeyMap} {op : Operation} {n : Nat}
      (h : Reachable tree e (some m) none n) (run : Engine.start.Gives e op e') :
      Reachable tree e' (some m) (some (op, m)) n

/-- What holds of an engine along the runs of a tree. -/
structure Held (tree : Tree) (e : Engine) (committed : Option KeyMap)
    (flight : Option (Operation × KeyMap)) (n : Nat) : Prop where
  attached : tree.component.isAttached
  ample : Ample e.mounted.volume.pageSize
  committed : ∀ m, committed = some m → ∃ base, e.mounted.Resident tree.component.file base ∧
    Stores ⟨e.mounted, .none⟩ tree.component.file base m n
  flight : ∀ op m, flight = some (op, m) → ∃ base, Engine.Known op tree.component.file e.mounted base ∧
    Stores ⟨e.mounted, op⟩ tree.component.file base m n

theorem Ample.ofSettings {s : Settings} (h : s.validate = .ok ()) : Ample s.pageSize := by
  obtain ⟨hmin, hmax, -⟩ := Settings.validate_eq_ok_iff.mp h
  exact ⟨hmin, hmax⟩

theorem start_gives {e e' : Engine} {op : Operation} (h : Engine.start.Gives e op e') :
    ∃ id, op = .fresh id ∧ e'.mounted = e.mounted := by
  obtain ⟨-, rfl, rfl⟩ := Engine.start_eq h
  exact ⟨_, rfl, rfl⟩

/-- A new operation over pages like those of another one shows the same nodes. -/
theorem Shows.renew {t : Transaction} {file : FileId} {base pages cur : List Page} {s : Sheet}
    (hs : Shows t file base s) (hp : t.Shows file base pages) (hon : s.On pages) {mounted : Mounted}
    (hsize : mounted.volume.pageSize = t.mounted.volume.pageSize)
    (ha : List.Forall₂ Page.Alike pages cur) (hr : mounted.Resident file cur) (id : OperationId) :
    Shows ⟨mounted, .fresh id⟩ file cur s := by
  have hroom : ∀ p ∈ pages, 64 ≤ p.size := by
    intro p hpm
    rw [hp.drafts.sizes p hpm]
    exact hs.room
  exact ⟨⟨cur, hp.renew hsize ha hr id, hon.alike hroom ha⟩, hsize ▸ hs.room, hsize ▸ hs.limit⟩

namespace Stores

variable {t : Transaction} {file : FileId} {base : List Page} {m : KeyMap} {n n' : Nat}

theorem mono (h : Stores t file base m n) (hn : n ≤ n') : Stores t file base m n' := by
  obtain ⟨s, h', b, hs, hb, hm, htips, hes⟩ := h
  exact ⟨s, h', b, hs, hb, hm, by omega, by omega⟩

/-- A new operation over the same pages shows the same tree. -/
theorem afresh {mounted : Mounted} {id : OperationId} (h : Stores ⟨mounted, .fresh id⟩ file base m n)
    {mounted' : Mounted} (hv : mounted'.volume = mounted.volume) (hr : mounted'.Resident file base)
    (id' : OperationId) : Stores ⟨mounted', .fresh id'⟩ file base m n := by
  obtain ⟨s, h', b, hs, hb, hrest⟩ := h
  obtain ⟨pages, hp, hon⟩ := hs.pages
  obtain rfl := hp.drafts.eq_of_fresh
  have hps : mounted'.volume.pageSize = mounted.volume.pageSize := by rw [hv]
  have hs' := hs.renew hp hon hps (List.forall₂_same.mpr fun p _ => .refl p) hr id'
  exact ⟨s, h', b, hs', by rwa [hps], hrest⟩

theorem elsewhere {t' : Transaction} {other : FileId} (h : Stores t file base m n) (apart : other ≠ file)
    (ha : Transaction.Alters other t t') : Stores t' file base m n := by
  obtain ⟨s, h', b, hs, hb, hrest⟩ := h
  obtain ⟨pages, hp, hon⟩ := hs.pages
  rw [← ha.mounted] at hb
  exact ⟨s, h', b, ⟨⟨pages, ha.shows_other apart.symm hp, hon⟩, ha.mounted ▸ hs.room, ha.mounted ▸ hs.limit⟩,
    hb, hrest⟩

/-- What an operation shows is in memory once it is committed. -/
theorem commit {e e' : Engine} {op : Operation} (h : Stores ⟨e.mounted, op⟩ file base m n)
    (hk : Engine.Known op file e.mounted base) (run : (Engine.commit op).Gives e () e') :
    e'.mounted.volume.pageSize = e.mounted.volume.pageSize ∧
      ∃ cur, e'.mounted.Resident file cur ∧ Stores ⟨e'.mounted, .none⟩ file cur m n := by
  obtain ⟨s, h', b, hs, hb, hrest⟩ := h
  obtain ⟨pages, hp, hon⟩ := hs.pages
  obtain ⟨⟨cur, hr, ha⟩, hps⟩ :=
    Engine.commit_resident run hk hp.drafts (Nat.le_trans (by decide) hs.room)
  exact ⟨hps, cur, hr, s, h', b, hs.renew hp hon hps ha hr 0, by rwa [hps], hrest⟩

end Stores

variable {tree : Tree} {e e' : Engine} {committed : Option KeyMap} {flight : Option (Operation × KeyMap)}
  {op : Operation} {m : KeyMap} {n : Nat} {t : Transaction}

/-! Each step of a run keeps what holds of the engine. -/

namespace Held

theorem created {settings : Settings} {e₀ : Engine} {detached : Tree} (valid : settings.validate = .ok ())
    (pages : e₀.mounted.volume.pageSize = settings.pageSize) (start : Engine.start.Gives e₀ op e)
    (create : detached.create.Gives ⟨e.mounted, op⟩ tree t) (attached : tree.component.isAttached) :
    Held tree { e with mounted := t.mounted } none (some (t.operation, ∅)) 0 := by
  obtain ⟨id, rfl, hm⟩ := start_gives start
  have hample : Ample e.mounted.volume.pageSize := by
    rw [hm, pages]
    exact .ofSettings valid
  obtain ⟨t', s, hg, ha, hs, hb⟩ := exists_create (create_gives create)
    (by simp [Operation.fresh]) (fun i => by simp [Operation.fresh, Operation.draft?]) hample
  obtain ⟨rfl, rfl⟩ := hg.unique create
  refine ⟨attached, ?_, fun _ hm => (by cases hm), ?_⟩
  · rw [ha.mounted]
    exact hample
  · rintro op m ⟨⟩
    refine ⟨[], .inl ⟨⟨detached.fileName, ?_⟩, rfl⟩, s, 0, _, hs, hb, .empty, ?_, ?_⟩
    · rw [ha.created]
      rfl
    · exact Nat.le_refl 1
    · exact Nat.zero_le _

theorem call (h : Held tree e committed (some (op, m)) n) (call : Call) (hn : n + call.puts < 2 ^ 61)
    {outcome : Checked TreeError Answer} (run : (call.run tree).start ⟨e.mounted, op⟩ = (outcome, t)) :
    Held tree { e with mounted := t.mounted } committed (some (t.operation, (call.on m).2)) (n + call.puts) := by
  obtain ⟨base, hk, hs⟩ := h.flight op m rfl
  obtain ⟨t', hg, ha, hs'⟩ := hs.call h.attached h.ample call hn
  obtain rfl : t' = t := congrArg Prod.snd (hg.eq.symm.trans run)
  have hm : t'.mounted = e.mounted := ha.mounted
  rw [hm]
  refine ⟨h.attached, h.ample, fun m' hm' => ?_, ?_⟩
  · obtain ⟨base', hr, hsm⟩ := h.committed m' hm'
    exact ⟨base', hr, hsm.mono (Nat.le_add_right _ _)⟩
  · rintro op' m' ⟨⟩
    refine ⟨base, hk.alters ha, ?_⟩
    rwa [← hm]

theorem view (h : Held tree e (some m) flight n) (call : Call) (read : call.isRead = true)
    {outcome : Checked TreeError Answer} (run : (call.run tree).start ⟨e.mounted, .none⟩ = (outcome, t)) :
    Held tree { e with mounted := t.mounted } (some m) flight n := by
  obtain ⟨base, hr, hs⟩ := h.committed m rfl
  obtain ⟨hg, -⟩ := hs.read h.attached call read
  obtain rfl : (⟨e.mounted, .none⟩ : Transaction) = t := congrArg Prod.snd (hg.eq.symm.trans run)
  exact ⟨h.attached, h.ample, h.committed, h.flight⟩

theorem elsewhere (h : Held tree e committed (some (op, m)) n) {other : FileId}
    (apart : other ≠ tree.component.file) (ha : Transaction.Alters other ⟨e.mounted, op⟩ t) :
    Held tree e committed (some (t.operation, m)) n := by
  refine ⟨h.attached, h.ample, h.committed, ?_⟩
  rintro op' m' ⟨⟩
  obtain ⟨base, hk, hs⟩ := h.flight op m rfl
  have hm : t.mounted = e.mounted := ha.mounted
  refine ⟨base, hk.alters ha, ?_⟩
  rw [← hm]
  exact hs.elsewhere apart ha

theorem commit (h : Held tree e committed (some (op, m)) n) (run : (Engine.commit op).Gives e () e') :
    Held tree e' (some m) none n := by
  obtain ⟨base, hk, hs⟩ := h.flight op m rfl
  obtain ⟨hps, hs'⟩ := hs.commit hk run
  refine ⟨h.attached, ?_, ?_, nofun⟩
  · rw [hps]
    exact h.ample
  · rintro m' ⟨⟩
    exact hs'

theorem failed (h : Held tree e committed flight n) {cause : StorageError}
    (run : (Engine.commit op).start e = (.error (.error cause), e')) (usable : e'.journal.broken = false) :
    Held tree e' committed none n := by
  have hv := (Engine.commit_fails run usable).volume
  refine ⟨h.attached, ?_, fun m' hm' => ?_, nofun⟩
  · rw [hv]
    exact h.ample
  · obtain ⟨base, hr, hs⟩ := h.committed m' hm'
    exact ⟨base, hr.congr hv, hs.afresh hv (hr.congr hv) 0⟩

theorem start (h : Held tree e (some m) none n) (run : Engine.start.Gives e op e') :
    Held tree e' (some m) (some (op, m)) n := by
  obtain ⟨id, rfl, hm⟩ := start_gives run
  refine ⟨h.attached, ?_, ?_, ?_⟩
  · rw [hm]
    exact h.ample
  · rw [hm]
    exact h.committed
  · rintro op' m' ⟨⟩
    obtain ⟨base, hr, hs⟩ := h.committed m rfl
    rw [hm]
    exact ⟨base, .inr ⟨by simp [Operation.fresh], hr⟩, hs.afresh rfl hr id⟩

end Held

theorem Reachable.held (h : Reachable tree e committed flight n) (hn : n < 2 ^ 61) :
    Held tree e committed flight n := by
  induction h with
  | created valid pages start create attached => exact .created valid pages start create attached
  | call h call run ih => exact (ih (Nat.lt_of_le_of_lt (Nat.le_add_right _ _) hn)).call call hn run
  | view h call read run ih => exact (ih hn).view call read run
  | elsewhere h apart alters ih => exact (ih hn).elsewhere apart alters
  | commit h run ih => exact (ih hn).commit run
  | failed h run usable ih => exact (ih hn).failed run usable
  | giveUp h ih => exact { ih hn with flight := nofun }
  | start h run ih => exact (ih hn).start run

/-- A tree can be created in every usable engine where its name is free. -/
theorem Reachable.exists_created (settings : Settings) (e : Engine) (name : String)
    (valid : settings.validate = .ok ()) (pages : e.mounted.volume.pageSize = settings.pageSize)
    (usable : e.journal.broken = false)
    (free : e.mounted.volume.idOf? (Tree.named name).fileName = none)
    (hid : e.mounted.volume.catalog.nextId ≠ .none) :
    ∃ e' op, Reachable ((Tree.named name).attached e.mounted.volume.catalog.nextId) e' none
      (some (op, ∅)) 0 := by
  set op := Operation.fresh e.journal.nextOperation
  set e₁ : Engine := { e with journal := { e.journal with nextOperation := e.journal.nextOperation + 1 } }
  have hstart : Engine.start.Gives e op e₁ := Engine.start_of_usable usable
  have hfree : (Transaction.fileExists (Tree.named name).fileName).Gives ⟨e₁.mounted, op⟩ false
      ⟨e₁.mounted, op⟩ := by
    refine (Task.Gives.state _).bind ?_
    have hnew : ¬ (op.createdId? (Tree.named name).fileName).isSome = true := by
      simp [op, Operation.createdId?, Operation.fresh]
    dsimp only
    rw [if_neg hnew, show e₁.mounted.volume = e.mounted.volume from rfl, free]
    exact .pure _ _
  obtain ⟨t, s, hcreate, -⟩ := exists_create hfree (by simp [op, Operation.fresh])
    (fun i => by simp [op, Operation.fresh, Operation.draft?]) (pages ▸ .ofSettings valid)
  exact ⟨_, _, .created valid pages hstart hcreate (decide_eq_true hid)⟩

/-! ## Trees with many keys -/

/-- Keys of one cluster of one collection, by position. -/
def keyAt (i : ℕ) : Key := ⟨1, 2, Int64.ofNat i⟩

/-- The map after puts under the first positions. -/
def filled : ℕ → KeyMap
  | 0 => ∅
  | count + 1 => (filled count).insert (keyAt count) (Int32.ofNat count)

theorem keyAt_inj {i j : ℕ} (hi : i < 2 ^ 63) (hj : j < 2 ^ 63) : keyAt i = keyAt j ↔ i = j := by
  refine ⟨fun h => ?_, fun h => h ▸ rfl⟩
  have hposition : Int64.ofNat i = Int64.ofNat j := congrArg Key.position h
  have hint := congrArg Int64.toInt hposition
  rw [Int64.toInt_ofNat_of_lt hi, Int64.toInt_ofNat_of_lt hj] at hint
  exact Int.ofNat_inj.mp hint

theorem getElem?_filled {count i : ℕ} (hcount : count ≤ 2 ^ 63) (hi : i < 2 ^ 63) :
    (filled count)[keyAt i]? = if i < count then some (Int32.ofNat i) else none := by
  induction count with
  | zero => exact Std.TreeMap.getElem?_emptyc
  | succ count ih =>
    rw [filled, lookup_insert, ih (by omega)]
    by_cases hlast : i = count
    · rw [if_pos (congrArg keyAt hlast), if_pos (by omega), hlast]
    · have hne : ¬ keyAt i = keyAt count := fun he => hlast ((keyAt_inj hi (by omega)).mp he)
      have hiff : i < count ↔ i < count + 1 := by omega
      rw [if_neg hne, if_congr hiff rfl rfl]

theorem mem_filled {count : ℕ} {key : Key} : key ∈ filled count ↔ ∃ i < count, key = keyAt i := by
  induction count with
  | zero => simp [filled]
  | succ count ih =>
    rw [filled, Std.TreeMap.mem_insert, Std.compare_eq_iff_eq, ih]
    constructor
    · rintro (rfl | ⟨i, hi, rfl⟩)
      · exact ⟨count, by omega, rfl⟩
      · exact ⟨i, by omega, rfl⟩
    · rintro ⟨i, hi, rfl⟩
      rcases Nat.lt_succ_iff_lt_or_eq.mp hi with hi | rfl
      · exact .inr ⟨i, hi, rfl⟩
      · exact .inl rfl

theorem size_filled {count : ℕ} (hcount : count ≤ 2 ^ 63) : (filled count).size = count := by
  induction count with
  | zero => rfl
  | succ count ih =>
    have hnew : keyAt count ∉ filled count := by
      rw [← Std.TreeMap.isSome_getElem?_iff_mem, getElem?_filled (by omega) (by omega), if_neg (Nat.lt_irrefl _)]
      exact Bool.false_ne_true
    rw [filled, Std.TreeMap.size_insert, if_neg (Std.TreeMap.contains_iff_mem.not.mpr hnew), ih (by omega)]

/-- Any number of keys can be put into a new tree. -/
theorem Reachable.exists_filled (count : ℕ) : ∃ tree e op, Reachable tree e none (some (op, filled count)) count := by
  induction count with
  | zero =>
    obtain ⟨e, op, h⟩ := Reachable.exists_created ⟨"", 1024, 1, false⟩
      ⟨⟨.empty, ⟨.top, 1024, 1, .empty, ∅⟩⟩, ⟨⟨0, false⟩, 1, false⟩⟩ "tree" rfl rfl rfl rfl (by decide)
    exact ⟨_, e, op, h⟩
  | succ count ih =>
    obtain ⟨tree, e, op, h⟩ := ih
    exact ⟨tree, _, _, h.call (.put (keyAt count) (Int32.ofNat count)) rfl⟩

/-! ## What runs answer -/

/-- Every call of a run succeeds and answers like the map: calls in the operation in flight by the map
of that operation, reads in a view by the committed map. -/
theorem Reachable.calls_answered (h : Reachable tree e committed flight n) (hn : n + 1 < 2 ^ 61) :
    (∀ op m, flight = some (op, m) → ∀ call : Call,
      ∃ t, (call.run tree).Gives ⟨e.mounted, op⟩ (call.on m).1 t) ∧
    ∀ m, committed = some m → ∀ call : Call, call.isRead = true →
      (call.run tree).Gives ⟨e.mounted, .none⟩ (call.on m).1 ⟨e.mounted, .none⟩ := by
  obtain ⟨hatt, hample, hc, hf⟩ := h.held (by omega)
  refine ⟨fun op m hm call => ?_, fun m hm call hread => ?_⟩
  · obtain ⟨base, -, hs⟩ := hf op m hm
    have hputs : call.puts ≤ 1 := by cases call <;> simp [Call.puts]
    obtain ⟨t, hg, -⟩ := hs.call hatt hample call (by omega)
    exact ⟨t, hg⟩
  · obtain ⟨base, -, hs⟩ := hc m hm
    exact (hs.read hatt call hread).1

/-- After many puts all of them are counted, and each value can be read. -/
theorem count_after_puts : ∃ tree e op t t', Reachable tree e none (some (op, filled 3000)) 3000 ∧
    (Call.count.run tree).Gives ⟨e.mounted, op⟩ (.count 3000) t ∧
    ((Call.get (keyAt 1234)).run tree).Gives ⟨e.mounted, op⟩ (.value (some 1234)) t' := by
  obtain ⟨tree, e, op, h⟩ := Reachable.exists_filled 3000
  have answered := (Reachable.calls_answered h (by decide)).1 _ _ rfl
  obtain ⟨t, hcount⟩ := answered .count
  obtain ⟨t', hget⟩ := answered (.get (keyAt 1234))
  rw [Call.on, size_filled (by decide)] at hcount
  rw [Call.on, getElem?_filled (by decide) (by decide), if_pos (by decide)] at hget
  exact ⟨tree, e, op, t, t', h, hcount, hget⟩

/-- The file of a tree is in order after every step of a run, in the operation in flight and as it is
committed. -/
theorem Reachable.pages_inOrder (h : Reachable tree e committed flight n) (hn : n < 2 ^ 61) :
    (∀ op m, flight = some (op, m) → ∃ pages info h, ∃ b : Shape h,
      InOrder ⟨e.mounted, op⟩ tree.component.file pages info b) ∧
    ∀ m, committed = some m → ∃ pages info h, ∃ b : Shape h,
      InOrder ⟨e.mounted, .none⟩ tree.component.file pages info b := by
  obtain ⟨-, -, hc, hf⟩ := h.held hn
  refine ⟨fun op m hm => ?_, fun m hm => ?_⟩
  · obtain ⟨base, -, s, h, b, hs, hb, -⟩ := hf op m hm
    obtain ⟨pages, ho⟩ := hs.inOrder hb
    exact ⟨pages, s.info, h, b, ho⟩
  · obtain ⟨base, -, s, h, b, hs, hb, -⟩ := hc m hm
    obtain ⟨pages, ho⟩ := hs.inOrder hb
    exact ⟨pages, s.info, h, b, ho⟩

/-- After more puts than a leaf has room for, the root is a branch. -/
theorem inOrder_after_puts : ∃ tree e op pages info h, ∃ b : Shape h,
    Reachable tree e none (some (op, filled 3000)) 3000 ∧ InOrder ⟨e.mounted, op⟩ tree.component.file pages info b ∧
      b.entries.length = 3000 ∧ 0 < h := by
  obtain ⟨tree, e, op, h⟩ := Reachable.exists_filled 3000
  obtain ⟨pages, info, height, b, ho⟩ := (Reachable.pages_inOrder h (by decide)).1 _ _ rfl
  obtain ⟨hatt, hample, -, hflight⟩ := h.held (by decide)
  obtain ⟨_, -, s, _, c, hs, hc, hm, -⟩ := hflight _ _ rfl
  have hlen : b.entries.length = 3000 := by
    obtain ⟨k, hk, hcount⟩ := ho.entryCount hatt
    obtain rfl := (hk.unique (hs.entryCount hatt)).1
    rw [← hcount, hc.count, ← hm.size, size_filled (by decide)]
  refine ⟨tree, e, op, pages, info, height, b, h, ho, hlen, ho.height_pos ?_⟩
  have hlimit : e.mounted.volume.pageSize ≤ 65536 := hample.2
  show (e.mounted.volume.pageSize - 35) / 24 < _
  omega

end RefStore.Tree
