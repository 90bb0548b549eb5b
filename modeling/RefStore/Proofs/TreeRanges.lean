import RefStore.Collection.Basic
import RefStore.Proofs.TreeRuns
import RefStore.Proofs.TreeScans

/-!
# Ranges of a tree as a map

Along any run of a tree its scans find what the map holds in a range, in key order, and so a collection
lists its own entries and no others. Main statement: `Reachable.ranges_answered`.
-/

namespace RefStore

namespace Key

theorem lt_iff {a b : Key} : a < b ↔ a.collection < b.collection ∨
    a.collection = b.collection ∧ (a.cluster < b.cluster ∨
      a.cluster = b.cluster ∧ a.position < b.position) := by
  have hc : compare a b = (compare a.collection b.collection).then
      ((compare a.cluster b.cluster).then (compare a.position b.position)) := rfl
  rw [← compare_eq_lt, hc, Ordering.then_eq_lt, Ordering.then_eq_lt]
  simp only [Std.compare_eq_lt, Std.compare_eq_iff_eq]

theorem of_lt_iff {c : CollectionId} {r r' : RecordRef} : of c r < of c r' ↔ compare r r' = .lt := by
  have hc : compare r r' = (compare r.cluster r'.cluster).then (compare r.position r'.position) := rfl
  rw [hc, Ordering.then_eq_lt, lt_iff]
  simp only [of, Std.compare_eq_lt, Std.compare_eq_iff_eq, Int64.lt_irrefl, false_or, true_and]

/-- The keys of a collection are those in its range. -/
theorem covers_range {c : CollectionId} {key : Key} :
    (Tree.KeyRange.closed (range c).1 (range c).2).Covers key ↔ key.collection = c := by
  have hcovers : (Tree.KeyRange.closed (range c).1 (range c).2).Covers key ↔
      ¬ key < (range c).1 ∧ ¬ (range c).2 < key := by
    rw [not_lt, not_lt]
    rfl
  rw [hcovers, lt_iff, lt_iff]
  have h₁ : ¬ key.cluster < Int32.minValue := Int32.not_lt.mpr (Int32.minValue_le _)
  have h₂ : ¬ key.position < Int64.minValue := Int64.not_lt.mpr (Int64.minValue_le _)
  have h₃ : ¬ Int32.maxValue < key.cluster := Int32.not_lt.mpr (Int32.le_maxValue _)
  have h₄ : ¬ Int64.maxValue < key.position := Int64.not_lt.mpr (Int64.le_maxValue _)
  simp only [range, of, RecordRef.least, RecordRef.greatest, h₁, h₂, h₃, h₄, and_false, or_false,
    Int64.not_lt]
  exact ⟨fun ⟨hle, hge⟩ => Int64.le_antisymm hge hle, fun h => h ▸ ⟨Int64.le_refl _, Int64.le_refl _⟩⟩

theorem of_record {key : Key} {c : CollectionId} (h : key.collection = c) : of c key.record = key := by
  subst h
  rfl

end Key

namespace Tree

/-- The least of the keys that satisfy a condition, if there are any. -/
def IsFirst (condition : Key → Prop) : Option Key → Prop
  | none => ∀ key, ¬ condition key
  | some key => condition key ∧ ∀ other, condition other → key ≤ other

theorem isFirst_head? {condition : Key → Prop} {es : List Entry} (ho : Entries.InOrder es)
    (h : ∀ key, condition key ↔ ∃ value, ⟨key, value⟩ ∈ es) :
    IsFirst condition (es.head?.map Entry.key) := by
  cases es with
  | nil =>
    intro key hkey
    obtain ⟨value, hm⟩ := (h key).mp hkey
    cases hm
  | cons e es =>
    show condition e.key ∧ ∀ other, condition other → e.key ≤ other
    refine ⟨(h e.key).mpr ⟨e.value, List.mem_cons_self⟩, fun other ho' => ?_⟩
    obtain ⟨value, hm⟩ := (h other).mp ho'
    rcases List.mem_cons.mp hm with rfl | hm
    · exact le_refl _
    · have hlt : e.key < other := (List.pairwise_cons.mp ho).1 ⟨other, value⟩ hm
      exact le_of_lt hlt

/-- There is only one least key. -/
theorem IsFirst.eq {condition : Key → Prop} {a b : Option Key} (h : IsFirst condition a) (h' : IsFirst condition b) :
    a = b := by
  cases a with
  | none =>
    cases b with
    | none => rfl
    | some y => exact absurd h'.1 (h y)
  | some x =>
    cases b with
    | none => exact absurd h.1 (h' x)
    | some y => exact congrArg some (le_antisymm (h.2 y h'.1) (h'.2 x h.1))

/-- What a tree answers about ranges of keys, told by the map that it stands for. -/
structure AnswersRanges (tree : Tree) (t : Transaction) (m : KeyMap) : Prop where
  scan : ∀ r : KeyRange, ∃ es, (tree.scan r none).Gives t es t ∧ Entries.InOrder es ∧
    ∀ key value, ⟨key, value⟩ ∈ es ↔ m[key]? = some value ∧ r.Covers key
  has : ∀ low high, ∃ found, (tree.hasEntriesBetween low high).Gives t found t ∧
    (found = true ↔ ∃ key ∈ m, low ≤ key ∧ key ≤ high)
  firstBetween : ∀ low high, ∃ key, (tree.firstKeyBetween low high).Gives t key t ∧
    IsFirst (fun key => key ∈ m ∧ low ≤ key ∧ key ≤ high) key
  first : ∃ key, tree.firstKey.Gives t key t ∧ IsFirst (· ∈ m) key
  /-- The entries of a collection, by record. -/
  collection : ∀ (w : Workspace) (c : Collection) (s : ClusterStorage),
    (Part.get w : Transaction) = t → w.store.registry.storages[c.storage]? = some s → s.tree = tree →
      ∃ entries, c.entries.Gives w entries w ∧
        (entries.Pairwise fun a b => compare a.1 b.1 = .lt) ∧
        ∀ record value, (record, value) ∈ entries ↔ m[c.key record]? = some value

theorem Models.mem_iff {m : KeyMap} {es : List Entry} (h : Models m es) {key : Key} :
    key ∈ m ↔ ∃ value, ⟨key, value⟩ ∈ es := by
  rw [← Std.TreeMap.isSome_getElem?_iff_mem, Option.isSome_iff_exists]
  exact exists_congr fun value => h.entry key value

/-- A task on a component, without a change of it. -/
theorem onTree_gives {α : Type} {w : Workspace} {task : Task Transaction TreeError α} {a : α}
    (h : task.Gives (Part.get w) a (Part.get w)) : (Workspace.onTree task).Gives w a w :=
  (h.mapError CollectionError.tree).onPart

namespace Stores

variable {t : Transaction} {tree : Tree} {base : List Page} {m : KeyMap} {n : Nat}

theorem ranges (h : Stores t tree.component.file base m n) (hatt : tree.component.isAttached) :
    AnswersRanges tree t m := by
  obtain ⟨s, _, b, hs, hb, hm, -⟩ := h
  have hord : Entries.InOrder b.entries := hb.ordered.entries.1
  have hscan := hs.scan hatt hb
  have hmem (r : KeyRange) (key : Key) (value : Int32) :
      ⟨key, value⟩ ∈ r.pick b.entries ↔ m[key]? = some value ∧ r.Covers key := by
    rw [KeyRange.mem_pick, hm.entry]
  have hall (r : KeyRange) : (tree.scan r none).Gives t (r.pick b.entries) t := by
    have := hscan r none
    rwa [limited_none] at this
  have hkey (low high key : Key) : (key ∈ m ∧ low ≤ key ∧ key ≤ high) ↔
      ∃ value, ⟨key, value⟩ ∈ (KeyRange.closed low high).pick b.entries := by
    rw [hm.mem_iff]
    simp only [KeyRange.mem_pick, exists_and_right]
    rfl
  have hfirst (low high : Key) : (tree.firstKeyBetween low high).Gives t
      (((KeyRange.closed low high).pick b.entries).head?.map Entry.key) t := by
    refine (hscan (.closed low high) (some 1)).bind ?_
    rw [limited, Option.getD_some, List.head?_take, if_neg (by decide)]
    exact .pure _ t
  refine ⟨fun r => ⟨_, hall r, KeyRange.inOrder_pick hord, hmem r⟩, fun low high => ?_,
    fun low high => ⟨_, hfirst low high, isFirst_head? (KeyRange.inOrder_pick hord) (hkey low high)⟩,
    ⟨_, hs.firstKey hatt hb, isFirst_head? hord fun key => hm.mem_iff⟩, ?_⟩
  · refine ⟨_, (hfirst low high).bind (.pure _ t), ?_⟩
    rw [Option.isSome_map, List.isSome_head?]
    constructor
    · intro hne
      obtain ⟨⟨key, value⟩, he⟩ := List.exists_mem_of_ne_nil _ hne
      exact ⟨key, (hkey low high key).mpr ⟨value, he⟩⟩
    · rintro ⟨key, hin⟩
      obtain ⟨value, he⟩ := (hkey low high key).mp hin
      exact List.ne_nil_of_mem he
  · rintro w c st rfl hst rfl
    have hat : (Workspace.storageAt c.storage).Gives w st w := by
      refine (Task.Gives.state w).bind ?_
      rw [hst]
      exact .pure st w
    set r : KeyRange := .closed (Key.range c.id).1 (Key.range c.id).2 with hr
    have hown {e : Entry} (he : e ∈ r.pick b.entries) : Key.of c.id e.key.record = e.key :=
      Key.of_record (Key.covers_range.mp (KeyRange.mem_pick.mp he).2)
    refine ⟨_, hat.bind ((onTree_gives (hall r)).bind (.pure _ w)), ?_, fun record value => ?_⟩
    · refine List.pairwise_map.mpr ((KeyRange.inOrder_pick hord).imp_of_mem fun {x y} hx hy hxy => ?_)
      rwa [← hown hx, ← hown hy, Key.of_lt_iff] at hxy
    · have hcovers : r.Covers (c.key record) := Key.covers_range.mpr rfl
      rw [List.mem_map]
      constructor
      · rintro ⟨e, he, heq⟩
        obtain ⟨rfl, rfl⟩ := Prod.mk.inj heq
        rw [Collection.key, hown he]
        exact ((hmem r e.key e.value).mp he).1
      · intro hv
        exact ⟨⟨c.key record, value⟩, (hmem r _ _).mpr ⟨hv, hcovers⟩, rfl⟩

end Stores

variable {tree : Tree} {e : Engine} {committed : Option KeyMap} {flight : Option (Operation × KeyMap)}
  {n : Nat}

/-- Along a run ranges are answered from the map of the operation in flight, and in a view from the
committed map. -/
theorem Reachable.ranges_answered (h : Reachable tree e committed flight n) (hn : n < 2 ^ 61) :
    (∀ op m, flight = some (op, m) → AnswersRanges tree ⟨e.mounted, op⟩ m) ∧
      ∀ m, committed = some m → AnswersRanges tree ⟨e.mounted, .none⟩ m := by
  obtain ⟨hatt, -, hc, hf⟩ := h.held hn
  refine ⟨fun op m hm => ?_, fun m hm => ?_⟩
  · obtain ⟨base, -, hs⟩ := hf op m hm
    exact hs.ranges hatt
  · obtain ⟨base, -, hs⟩ := hc m hm
    exact hs.ranges hatt

theorem keyAt_le_iff {i j : ℕ} (hi : i < 2 ^ 63) (hj : j < 2 ^ 63) : keyAt i ≤ keyAt j ↔ i ≤ j := by
  have hlt : keyAt j < keyAt i ↔ Int64.ofNat j < Int64.ofNat i := by
    simp [Key.lt_iff, keyAt, Int64.lt_irrefl, Int32.lt_irrefl]
  rw [← not_lt, hlt, Int64.lt_iff_toInt_lt, Int64.toInt_ofNat_of_lt hi, Int64.toInt_ofNat_of_lt hj]
  omega

/-- Many keys are in a tree. The first one of a range is told, and a range beyond them is empty. -/
theorem firstKey_after_puts : ∃ (tree : Tree) (e : Engine) (op : Operation),
    Reachable tree e none (some (op, filled 3000)) 3000 ∧
      tree.firstKey.Gives ⟨e.mounted, op⟩ (some (keyAt 0)) (⟨e.mounted, op⟩ : Transaction) ∧
      (tree.firstKeyBetween (keyAt 1000) (keyAt 2000)).Gives ⟨e.mounted, op⟩ (some (keyAt 1000))
        (⟨e.mounted, op⟩ : Transaction) ∧
      (tree.hasEntriesBetween (keyAt 3000) (keyAt 4000)).Gives ⟨e.mounted, op⟩ false
        (⟨e.mounted, op⟩ : Transaction) := by
  obtain ⟨tree, e, op, h⟩ := Reachable.exists_filled 3000
  have answers := (Reachable.ranges_answered h (by decide)).1 _ _ rfl
  obtain ⟨first, hfirst, hleast⟩ := answers.first
  obtain ⟨between, hbetween, hleast'⟩ := answers.firstBetween (keyAt 1000) (keyAt 2000)
  obtain ⟨found, hfound, hiff⟩ := answers.has (keyAt 3000) (keyAt 4000)
  obtain rfl : first = some (keyAt 0) := by
    refine hleast.eq (b := some (keyAt 0)) ⟨mem_filled.mpr ⟨0, by decide, rfl⟩, fun other hother => ?_⟩
    obtain ⟨i, hi, rfl⟩ := mem_filled.mp hother
    exact (keyAt_le_iff (by decide) (by omega)).mpr (Nat.zero_le i)
  obtain rfl : between = some (keyAt 1000) := by
    refine hleast'.eq (b := some (keyAt 1000)) ⟨⟨mem_filled.mpr ⟨1000, by decide, rfl⟩, le_refl _, ?_⟩, ?_⟩
    · exact (keyAt_le_iff (by decide) (by decide)).mpr (by decide)
    · exact fun other hother => hother.2.1
  obtain rfl : found = false := by
    refine Bool.eq_false_iff.mpr fun htrue => ?_
    obtain ⟨key, hkey, hlow, -⟩ := hiff.mp htrue
    obtain ⟨i, hi, rfl⟩ := mem_filled.mp hkey
    have hle := (keyAt_le_iff (by decide) (by omega)).mp hlow
    omega
  exact ⟨tree, e, op, h, hfirst, hbetween, hfound⟩

end Tree

end RefStore
