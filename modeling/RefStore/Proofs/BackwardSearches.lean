import Mathlib.Data.Set.Basic
import Mathlib.Order.Bounds.Defs
import Mathlib.Order.Interval.Set.Defs
import RefStore.Proofs.TreeEnds
import RefStore.Proofs.TreeRanges

/-!
# Backward searches of a tree as a map

Along any run of a tree its last key, and the last key of a range, are the greatest ones of the map.
Main statement: `Reachable.last_keys_answered`.
-/

namespace RefStore.Tree

/-- The greatest of some keys, if there are any. -/
def IsLast (keys : Set Key) : Option Key → Prop
  | none => keys = ∅
  | some key => IsGreatest keys key

theorem isLast_getLast? {keys : Set Key} {es : List Entry} (ho : Entries.InOrder es)
    (h : ∀ key, key ∈ keys ↔ ∃ value, ⟨key, value⟩ ∈ es) :
    IsLast keys (es.getLast?.map Entry.key) := by
  rcases List.eq_nil_or_concat es with rfl | ⟨init, last, rfl⟩
  · apply Set.eq_empty_of_forall_notMem
    intro key hkey
    obtain ⟨value, hm⟩ := (h key).mp hkey
    cases hm
  · rw [List.concat_eq_append] at h ho ⊢
    rw [List.getLast?_concat]
    constructor
    · exact (h last.key).mpr ⟨last.value, by simp⟩
    · intro key hkey
      obtain ⟨value, hm⟩ := (h key).mp hkey
      rcases List.mem_append.mp hm with hm | hm
      · have hlt : key < last.key := (List.pairwise_append.mp ho).2.2 ⟨key, value⟩ hm last (by simp)
        exact le_of_lt hlt
      · have heq : (⟨key, value⟩ : Entry) = last := List.mem_singleton.mp hm
        rw [← heq]

/-- What a tree answers about its last keys, told by the map that it stands for. -/
structure AnswersLast (tree : Tree) (t : Transaction) (m : KeyMap) : Prop where
  last : ∃ key, tree.lastKey.Gives t key t ∧ IsLast { k | k ∈ m } key
  lastBetween : ∀ low high, ∃ key, (tree.lastKeyBetween low high).Gives t key t ∧
    IsLast { k | k ∈ m ∧ k ∈ Set.Icc low high } key

theorem Stores.lasts {t : Transaction} {tree : Tree} {base : List Page} {m : KeyMap} {n : Nat}
    (h : Stores t tree.component.file base m n) (hatt : tree.component.isAttached) :
    AnswersLast tree t m := by
  obtain ⟨s, _, b, hs, hb, hm, -⟩ := h
  have hord : Entries.InOrder b.entries := hb.ordered.entries.1
  constructor
  · exact ⟨_, hs.lastKey hatt hb, isLast_getLast? hord fun key => hm.mem_iff⟩
  · intro low high
    refine ⟨_, hs.lastKeyBetween hatt hb low high, isLast_getLast? (KeyRange.inOrder_pick hord) ?_⟩
    intro key
    show key ∈ m ∧ _ ↔ _
    rw [hm.mem_iff]
    simp only [KeyRange.mem_pick, exists_and_right]
    rfl

variable {tree : Tree} {e : Engine} {committed : Option KeyMap} {flight : Option (Operation × KeyMap)}
  {n : Nat}

/-- Along a run the last keys are those of the map of the operation in flight, and in a view those of the
committed map. -/
theorem Reachable.last_keys_answered (h : Reachable tree e committed flight n) (hn : n < 2 ^ 61) :
    (∀ op m, flight = some (op, m) → AnswersLast tree ⟨e.mounted, op⟩ m) ∧
      ∀ m, committed = some m → AnswersLast tree ⟨e.mounted, .none⟩ m := by
  obtain ⟨hatt, -, hc, hf⟩ := h.held hn
  constructor
  · intro op m hm
    obtain ⟨base, -, hs⟩ := hf op m hm
    exact hs.lasts hatt
  · intro m hm
    obtain ⟨base, -, hs⟩ := hc m hm
    exact hs.lasts hatt

/-- Once the greatest key is removed again, the last key of a range that reaches beyond both is the other
one. -/
theorem lastKeyBetween_after_remove : ∃ (tree : Tree) (e : Engine) (op : Operation) (m : KeyMap),
    Reachable tree e none (some (op, m)) 2 ∧
      (tree.lastKeyBetween ⟨1, 0, 0⟩ ⟨2, 0, 0⟩).Gives ⟨e.mounted, op⟩ (some ⟨1, 2, 3⟩)
        (⟨e.mounted, op⟩ : Transaction) := by
  obtain ⟨e, op, h⟩ := Reachable.exists_created ⟨"", 1024, 1, false⟩
    ⟨⟨.empty, ⟨.top, 1024, 1, .empty, ∅⟩⟩, ⟨⟨0, false⟩, 1, false⟩⟩ "tree" rfl rfl rfl rfl (by decide)
  have hput := (h.call (.put ⟨1, 2, 3⟩ 4) (Prod.eta _).symm).call (.put ⟨1, 2, 5⟩ 6) (Prod.eta _).symm
  have hremove := hput.call (.remove ⟨1, 2, 5⟩) (Prod.eta _).symm
  obtain ⟨key, hg, hlast⟩ :=
    ((Reachable.last_keys_answered hremove (by decide)).1 _ _ rfl).lastBetween ⟨1, 0, 0⟩ ⟨2, 0, 0⟩
  have hmem (k : Key) : k ∈ (((∅ : KeyMap).insert ⟨1, 2, 3⟩ 4).insert ⟨1, 2, 5⟩ 6).erase ⟨1, 2, 5⟩ ↔
      k = ⟨1, 2, 3⟩ := by
    rw [← Std.TreeMap.isSome_getElem?_iff_mem, lookup_erase, lookup_insert, lookup_insert]
    by_cases h₅ : k = ⟨1, 2, 5⟩
    · simp [h₅]
    · by_cases h₃ : k = ⟨1, 2, 3⟩ <;> simp [h₅, h₃]
  cases key with
  | none =>
    have hin : (⟨1, 2, 3⟩ : Key) ∈ (∅ : Set Key) := by
      rw [← hlast]
      exact ⟨(hmem _).mpr rfl, by decide, by decide⟩
    exact absurd hin (Set.notMem_empty _)
  | some key =>
    obtain rfl : key = ⟨1, 2, 3⟩ := (hmem key).mp hlast.1.1
    exact ⟨_, _, _, _, hremove, hg⟩

end RefStore.Tree
