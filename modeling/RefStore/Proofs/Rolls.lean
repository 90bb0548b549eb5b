import Mathlib.Data.List.Pairwise
import RefStore.Proofs.CollectionIds
import RefStore.Proofs.Readings
import RefStore.Proofs.Shelves

/-!
# Rolls of collections

A roll lists the collections of a store: the handles to them, their pointers, and which of them are
alive. On shelves that count, the slot of every live collection holds the number of its entries. A
call concerns one collection, and leaves the entries and the slots of all others alone.
-/

namespace RefStore

namespace Entries

variable {es below above : List Entry} {key : Key} {old : Option Int32}

/-- The number of entries of a collection. -/
def tally (es : List Entry) (c : CollectionId) : Nat := es.countP fun e => e.key.collection = c

theorem tally_put (h : Cut es key below old above) (value : Int32) (c : CollectionId) :
    tally (below ++ ⟨key, value⟩ :: above) c =
      tally es c + if old = none ∧ key.collection = c then 1 else 0 := by
  rw [h.eq, tally, tally, List.countP_append, List.countP_append, List.countP_append, List.countP_cons]
  cases old with
  | none =>
    simp only [Option.toList_none, List.map_nil, List.countP_nil, true_and, decide_eq_true_eq]
    omega
  | some v =>
    simp only [Option.toList_some, List.map_cons, List.map_nil, List.countP_singleton,
      decide_eq_true_eq, reduceCtorEq, false_and, if_false]
    omega

theorem tally_remove (h : Cut es key below old above) (c : CollectionId) :
    tally es c = tally (below ++ above) c + if old.isSome ∧ key.collection = c then 1 else 0 := by
  rw [h.eq, tally, tally, List.countP_append, List.countP_append, List.countP_append]
  cases old with
  | none => simp
  | some v =>
    simp only [Option.toList_some, List.map_cons, List.map_nil, List.countP_singleton,
      decide_eq_true_eq, Option.isSome_some, true_and]
    omega

theorem tally_eq_zero {c : CollectionId} (h : ∀ e ∈ es, e.key.collection ≠ c) : tally es c = 0 :=
  List.countP_eq_zero.mpr fun e he => by simpa using h e he

theorem length_ownEntries (es : List Entry) (c : CollectionId) : (Tree.ownEntries c es).length = tally es c := by
  rw [Tree.ownEntries_eq_filter, tally, List.countP_eq_length_filter]

end Entries

namespace Collection

/-- The collections of a store. -/
structure Roll where
  handles : List Collection
  pointers : List CollectionPointer
  live : List CollectionPointer

namespace Roll

def empty : Roll := ⟨[], [], []⟩

def lend (c : Collection) (roll : Roll) : Roll := { roll with handles := c :: roll.handles }

def enter (p : CollectionPointer) (roll : Roll) : Roll :=
  { roll with pointers := p :: roll.pointers, live := p :: roll.live }

def strike (p : CollectionPointer) (roll : Roll) : Roll :=
  { roll with live := roll.live.filter fun q => q ≠ p }

def strikeCluster (cluster : ClusterId) (roll : Roll) : Roll :=
  { roll with live := roll.live.filter fun p => p.cluster ≠ cluster }

end Roll

/-- A shelf on which the slot of a collection holds the number of its entries. -/
def Balanced (p : CollectionPointer) (sh : Shelf) : Prop :=
  ∃ n, sh.numbers[p.slot.toNat]? = some n ∧ n.toInt = Entries.tally sh.entries p.collection

/-- What is done to one collection leaves the entries and the slots of all others on its shelf alone. -/
structure Touches (p : CollectionPointer) (sh sh' : Shelf) : Prop where
  storage : sh'.storage = sh.storage
  entries : ∀ e ∈ sh'.entries, e ∈ sh.entries ∨ e.key.collection = p.collection
  tally : ∀ c ≠ p.collection, Entries.tally sh'.entries c = Entries.tally sh.entries c
  length : sh'.numbers.length = sh.numbers.length
  numbers : ∀ i ≠ p.slot.toNat, sh'.numbers[i]? = sh.numbers[i]?

namespace Touches

variable {p : CollectionPointer} {sh sh' sh'' : Shelf} {key : Key} {below above : List Entry}
  {old : Option Int32}

theorem refl (p : CollectionPointer) (sh : Shelf) : Touches p sh sh :=
  ⟨rfl, fun _ => .inl, fun _ _ => rfl, rfl, fun _ _ => rfl⟩

theorem trans (h : Touches p sh sh') (h' : Touches p sh' sh'') : Touches p sh sh'' where
  storage := h'.storage.trans h.storage
  entries e he := (h'.entries e he).elim (h.entries e) .inr
  tally c hc := (h'.tally c hc).trans (h.tally c hc)
  length := h'.length.trans h.length
  numbers i hi := (h'.numbers i hi).trans (h.numbers i hi)

theorem put (hcut : Entries.Cut sh.entries key below old above) (hk : key.collection = p.collection)
    (value : Int32) : Touches p sh { sh with entries := below ++ ⟨key, value⟩ :: above } where
  storage := rfl
  entries e he := by
    rcases List.mem_append.mp he with he | he
    · exact .inl (hcut.mem (List.mem_append_left _ he))
    · rcases List.mem_cons.mp he with rfl | he
      · exact .inr hk
      · exact .inl (hcut.mem (List.mem_append_right _ he))
  tally c hc := by
    rw [Entries.tally_put hcut, if_neg fun h => hc (h.2.symm.trans hk), Nat.add_zero]
  length := rfl
  numbers _ _ := rfl

theorem remove (hcut : Entries.Cut sh.entries key below old above) (hk : key.collection = p.collection) :
    Touches p sh { sh with entries := below ++ above } where
  storage := rfl
  entries _ he := .inl (hcut.mem he)
  tally c hc := by
    rw [Entries.tally_remove hcut c, if_neg fun h => hc (h.2.symm.trans hk), Nat.add_zero]
  length := rfl
  numbers _ _ := rfl

theorem set (sh : Shelf) (n : Int32) :
    Touches p sh { sh with numbers := sh.numbers.set p.slot.toNat n } where
  storage := rfl
  entries _ := .inl
  tally _ _ := rfl
  length := List.length_set ..
  numbers _ hi := List.getElem?_set_ne hi.symm

end Touches

/-- Collections with different ids, and with different slots if they share a shelf. -/
def Apart (p q : CollectionPointer) : Prop :=
  p.collection ≠ q.collection ∧ (p.file = q.file → p.slot ≠ q.slot)

instance : Std.Symm Apart := ⟨fun _ _ h => ⟨h.1.symm, fun he => (h.2 he.symm).symm⟩⟩

/-- Collections with ids and slots of their own, and shelves that count the entries of those that are
alive. -/
structure Counted (storages : List ClusterStorage) (counter : CollectionId) (shelves : Shelves)
    (roll : Roll) : Prop where
  nonneg : 0 ≤ counter
  entries : ∀ {id sh}, shelves id = some sh → ∀ e ∈ sh.entries, e.key.collection ≤ counter
  housed : ∀ p ∈ roll.pointers, ∃ (id : StorageId) (st : ClusterStorage), storages[id]? = some st ∧
    st.treeFile = p.file ∧ st.cluster = p.cluster
  numbered : ∀ p ∈ roll.pointers, p.collection ≤ counter
  slotted : ∀ p ∈ roll.pointers, ∀ {id sh}, shelves id = some sh → sh.storage.treeFile = p.file →
    p.slot.toNat < sh.numbers.length
  apart : roll.pointers.Pairwise Apart
  handles : ∀ c ∈ roll.handles, c.pointer ∈ roll.pointers ∧
    ∃ st : ClusterStorage, storages[c.storage]? = some st ∧ st.treeFile = c.pointer.file
  live : ∀ p ∈ roll.live, p ∈ roll.pointers ∧
    ∃ id sh, shelves id = some sh ∧ sh.storage.treeFile = p.file ∧ Balanced p sh

namespace Counted

variable {storages storages' : List ClusterStorage} {counter counter' : CollectionId}
  {shelves : Shelves} {roll : Roll} {id : StorageId} {sh sh' : Shelf} {p q : CollectionPointer}

theorem empty : Counted [] 0 (fun _ => none) .empty :=
  ⟨Int64.le_refl 0, nofun, nofun, nofun, nofun, .nil, nofun, nofun⟩

/-- More storages, and ids taken for nothing, do no harm. -/
theorem mono (h : Counted storages counter shelves roll) (hc : counter ≤ counter')
    (hst : ∀ {id : StorageId} {st : ClusterStorage}, storages[id]? = some st →
      storages'[id]? = some st) : Counted storages' counter' shelves roll where
  nonneg := Int64.le_trans h.nonneg hc
  entries hid e he := Int64.le_trans (h.entries hid e he) hc
  housed p hp := by
    obtain ⟨id, st, hid, hrest⟩ := h.housed p hp
    exact ⟨id, st, hst hid, hrest⟩
  numbered p hp := Int64.le_trans (h.numbered p hp) hc
  slotted := h.slotted
  apart := h.apart
  handles c hcm := by
    obtain ⟨hp, st, hid, hf⟩ := h.handles c hcm
    exact ⟨hp, st, hst hid, hf⟩
  live := h.live

/-- Something is done to one collection. -/
theorem touch (h : Counted storages counter shelves roll) (hid : shelves id = some sh)
    (ht : Touches p sh sh') (hp : p ∈ roll.pointers) (hfile : sh.storage.treeFile = p.file)
    {live : List CollectionPointer} (hsub : ∀ q ∈ live, q ∈ roll.live)
    (hbalanced : p ∈ live → Balanced p sh') :
    Counted storages counter (Function.update shelves id (some sh')) { roll with live } where
  nonneg := h.nonneg
  entries {i x} hx := by
    rcases update_cases hx with ⟨rfl, he⟩ | ⟨-, hx⟩
    · cases he
      intro e he
      rcases ht.entries e he with he | he
      · exact h.entries hid e he
      · exact he ▸ h.numbered p hp
    · exact h.entries hx
  housed := h.housed
  numbered := h.numbered
  slotted q hq {i x} hx hf := by
    rcases update_cases hx with ⟨rfl, he⟩ | ⟨-, hx⟩
    · cases he
      rw [ht.length]
      exact h.slotted q hq hid (ht.storage ▸ hf)
    · exact h.slotted q hq hx hf
  apart := h.apart
  handles := h.handles
  live q hq := by
    obtain ⟨hqp, i, x, hx, hf, hb⟩ := h.live q (hsub q hq)
    refine ⟨hqp, ?_⟩
    by_cases hqe : q = p
    · subst hqe
      exact ⟨id, sh', Function.update_self .., by rw [ht.storage, hfile], hbalanced hq⟩
    by_cases hi : i = id
    · subst hi
      rw [hid] at hx
      obtain rfl := Option.some.inj hx
      obtain ⟨hcoll, hslot⟩ : Apart q p := h.apart.forall hqp hp hqe
      obtain ⟨n, hn, hcount⟩ := hb
      refine ⟨i, sh', Function.update_self .., by rw [ht.storage, hf], n, ?_, ?_⟩
      · rw [ht.numbers _ fun he => hslot (hf.symm.trans hfile) (UInt32.toNat_inj.mp he), hn]
      · rw [ht.tally _ hcoll, hcount]
    · exact ⟨i, x, by rwa [Function.update_of_ne hi], hf, hb⟩

/-- A new collection takes the next id and the next slot. -/
theorem enter (h : Counted storages counter shelves roll) (hid : shelves id = some sh)
    (hstored : storages[id]? = some sh.storage) (hlt : counter < p.collection)
    (hcluster : sh.storage.cluster = p.cluster)
    (hfile : sh.storage.treeFile = p.file) (hslot : p.slot.toNat = sh.numbers.length)
    (hsole : ∀ {i x}, shelves i = some x → x.storage.treeFile = p.file → i = id) :
    Counted storages p.collection
      (Function.update shelves id (some { sh with numbers := sh.numbers ++ [0] })) (roll.enter p) where
  nonneg := Int64.le_trans h.nonneg (Int64.le_of_lt hlt)
  entries {i x} hx := by
    rcases update_cases hx with ⟨rfl, he⟩ | ⟨-, hx⟩
    · cases he
      exact fun e he => Int64.le_trans (h.entries hid e he) (Int64.le_of_lt hlt)
    · exact fun e he => Int64.le_trans (h.entries hx e he) (Int64.le_of_lt hlt)
  housed q hq := by
    rcases List.mem_cons.mp hq with rfl | hq
    · exact ⟨id, sh.storage, hstored, hfile, hcluster⟩
    · exact h.housed q hq
  numbered q hq := by
    rcases List.mem_cons.mp hq with rfl | hq
    · exact Int64.le_refl _
    · exact Int64.le_trans (h.numbered q hq) (Int64.le_of_lt hlt)
  slotted q hq {i x} hx hf := by
    rcases update_cases hx with ⟨rfl, he⟩ | ⟨hi, hx⟩
    · cases he
      rw [List.length_append, List.length_singleton]
      rcases List.mem_cons.mp hq with rfl | hq
      · omega
      · exact Nat.lt_succ_of_lt (h.slotted q hq hid hf)
    · rcases List.mem_cons.mp hq with rfl | hq
      · exact absurd (hsole hx hf) hi
      · exact h.slotted q hq hx hf
  apart := by
    refine List.pairwise_cons.mpr ⟨fun q hq => ⟨fun he => ?_, fun hf he => ?_⟩, h.apart⟩
    · exact Int64.lt_irrefl (Int64.lt_of_le_of_lt (h.numbered q hq) (he ▸ hlt))
    · have := h.slotted q hq hid (hfile.trans hf)
      rw [← he, hslot] at this
      exact Nat.lt_irrefl _ this
  handles c hc := by
    obtain ⟨hp, hrest⟩ := h.handles c hc
    exact ⟨List.mem_cons_of_mem _ hp, hrest⟩
  live q hq := by
    rcases List.mem_cons.mp hq with rfl | hq
    · refine ⟨List.mem_cons_self, id, _, Function.update_self .., hfile, 0, ?_, ?_⟩
      · dsimp only
        rw [hslot]
        exact List.getElem?_concat_length
      · rw [Entries.tally_eq_zero fun e he heq => ?_]
        · rfl
        · exact Int64.lt_irrefl (Int64.lt_of_le_of_lt (h.entries hid e he) (heq ▸ hlt))
    · obtain ⟨hqp, i, x, hx, hf, n, hn, hcount⟩ := h.live q hq
      refine ⟨List.mem_cons_of_mem _ hqp, ?_⟩
      by_cases hi : i = id
      · subst hi
        rw [hid] at hx
        obtain rfl := Option.some.inj hx
        refine ⟨i, _, Function.update_self .., hf, n, ?_, hcount⟩
        exact (List.getElem?_append_left (List.getElem?_eq_some_iff.mp hn).1).trans hn
      · exact ⟨i, x, by rwa [Function.update_of_ne hi], hf, n, hn, hcount⟩

/-- A handle leads to a collection of the roll. -/
theorem lend (h : Counted storages counter shelves roll) {c : Collection}
    (hp : c.pointer ∈ roll.pointers) {st : ClusterStorage} (hst : storages[c.storage]? = some st)
    (hf : st.treeFile = c.pointer.file) : Counted storages counter shelves (roll.lend c) where
  nonneg := h.nonneg
  entries := h.entries
  housed := h.housed
  numbered := h.numbered
  slotted := h.slotted
  apart := h.apart
  handles c' hc' := by
    rcases List.mem_cons.mp hc' with rfl | hc'
    · exact ⟨hp, st, hst, hf⟩
    · exact h.handles c' hc'
  live := h.live

/-- A new shelf has no collections. -/
theorem shelve (h : Counted storages counter shelves roll) {st : ClusterStorage}
    (hnew : ∀ p ∈ roll.pointers, p.file ≠ st.treeFile) (hnone : shelves storages.length = none) :
    Counted (storages ++ [st]) counter
      (Function.update shelves storages.length (some ⟨st, [], []⟩)) roll := by
  have hst {i : StorageId} {x : ClusterStorage} (hx : storages[i]? = some x) :
      (storages ++ [st])[i]? = some x := by
    rw [List.getElem?_append_left (List.getElem?_eq_some_iff.mp hx).1]
    exact hx
  have h' := h.mono (Int64.le_refl counter) hst
  refine ⟨h'.nonneg, fun {i x} hx => ?_, h'.housed, h'.numbered, fun q hq {i x} hx hf => ?_, h'.apart,
    h'.handles, fun q hq => ?_⟩
  · rcases update_cases hx with ⟨rfl, he⟩ | ⟨-, hx⟩
    · cases he
      exact nofun
    · exact h.entries hx
  · rcases update_cases hx with ⟨rfl, he⟩ | ⟨-, hx⟩
    · cases he
      exact absurd hf.symm (hnew q hq)
    · exact h.slotted q hq hx hf
  · obtain ⟨hqp, i, x, hx, hrest⟩ := h.live q hq
    refine ⟨hqp, i, x, ?_, hrest⟩
    rw [Function.update_of_ne]
    · exact hx
    · rintro rfl
      rw [hnone] at hx
      cases hx

/-- With a shelf go its collections. -/
theorem drop (h : Counted storages counter shelves roll) (hid : shelves id = some sh)
    (hfiled : ∀ {i j : StorageId} {x y : ClusterStorage}, storages[i]? = some x → storages[j]? = some y →
      x.treeFile = y.treeFile → i = j)
    (hstored : storages[id]? = some sh.storage) :
    Counted storages counter (Function.update shelves id none)
      (roll.strikeCluster sh.storage.cluster) := by
  have hold {i : StorageId} {x : Shelf} (hx : Function.update shelves id none i = some x) :
      shelves i = some x := (update_none_eq_some.mp hx).2
  refine ⟨h.nonneg, fun hx => h.entries (hold hx), h.housed, h.numbered,
    fun q hq {i x} hx => h.slotted q hq (hold hx), h.apart, h.handles, fun q hq => ?_⟩
  obtain ⟨hq, hcluster⟩ := List.mem_filter.mp hq
  obtain ⟨hqp, i, x, hx, hf, hb⟩ := h.live q hq
  refine ⟨hqp, i, x, ?_, hf, hb⟩
  rw [Function.update_of_ne]
  · exact hx
  · -- a collection on the shelf is one of the cluster
    rintro rfl
    rw [hid] at hx
    obtain rfl := Option.some.inj hx
    obtain ⟨j, st, hst, hsf, hsc⟩ := h.housed q hqp
    have hj := hfiled hst hstored (hsf.trans hf.symm)
    rw [hj, hstored] at hst
    obtain rfl := Option.some.inj hst
    simp [hsc] at hcluster

end Counted

end Collection

end RefStore
