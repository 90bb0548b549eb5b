import Mathlib.Logic.Function.Basic
import RefStore.Node.Codec
import RefStore.Proofs.NodeOrder

/-!
# Operations on nodes

A branch leads a key to the child after all its keys that are not above it. A key put into a branch
takes over the upper part of one child, and a branch that is split leads as before, on the two sides of
the key between the halves. A leaf is a finite map. Main statement: `Node.operations_keep_order`.
-/

namespace RefStore

/-! ## Leaves -/

namespace Leaf

variable {l l' : Leaf} {below above : List Entry} {old new : Option Int32} {key : Key}

theorem get?_eq_some_iff (h : Entries.InOrder l.entries) {key : Key} {value : Int32} :
    l.get? key = some value ↔ ⟨key, value⟩ ∈ l.entries := by
  obtain ⟨below, old, above, hcut, hget, -⟩ := l.exists_cut h key
  rw [hget, hcut.mem_self]

/-- Leaves that differ at one key at most. -/
theorem get?_update (h : Entries.InOrder l.entries) (h' : Entries.InOrder l'.entries)
    (hcut : Entries.Cut l.entries key below old above) (hcut' : Entries.Cut l'.entries key below new above) :
    l'.get? = Function.update l.get? key new := by
  funext q
  apply Option.ext
  intro value
  rw [get?_eq_some_iff h']
  by_cases hq : q = key
  · subst hq
    rw [Function.update_self, hcut'.mem_self]
  · rw [Function.update_of_ne hq, get?_eq_some_iff h, hcut.mem_of_ne hq, hcut'.mem_of_ne hq]

/-- A leaf in order and its operations as a finite map. -/
structure ActsAsMap (l : Leaf) : Prop where
  get (q : Key) (value : Int32) : l.get? q = some value ↔ ⟨q, value⟩ ∈ l.entries
  insert_order (k : Key) (value : Int32) : Entries.InOrder (l.insert k value).1.entries
  insert_get (k : Key) (value : Int32) : (l.insert k value).1.get? = Function.update l.get? k (some value)
  insert_old (k : Key) (value : Int32) : (l.insert k value).2 = l.get? k
  remove_order (k : Key) : Entries.InOrder (l.remove k).1.entries
  remove_get (k : Key) : (l.remove k).1.get? = Function.update l.get? k none
  remove_old (k : Key) : (l.remove k).2 = l.get? k

theorem actsAsMap (h : Entries.InOrder l.entries) : l.ActsAsMap where
  get _ _ := get?_eq_some_iff h
  insert_order k value := by
    obtain ⟨below, old, above, hcut, -, hinsert, -⟩ := l.exists_cut h k
    rw [hinsert]
    exact hcut.inOrder_put h value
  insert_get k value := by
    obtain ⟨below, old, above, hcut, -, hinsert, -⟩ := l.exists_cut h k
    rw [hinsert]
    exact get?_update h (hcut.inOrder_put h value) hcut (hcut.put value)
  insert_old k value := by
    obtain ⟨below, old, above, -, hget, hinsert, -⟩ := l.exists_cut h k
    rw [hinsert, hget]
  remove_order k := by
    obtain ⟨below, old, above, hcut, -, -, hremove⟩ := l.exists_cut h k
    rw [hremove]
    exact hcut.inOrder_drop h
  remove_get k := by
    obtain ⟨below, old, above, hcut, -, -, hremove⟩ := l.exists_cut h k
    rw [hremove]
    exact get?_update h (hcut.inOrder_drop h) hcut hcut.drop
  remove_old k := by
    obtain ⟨below, old, above, -, hget, -, hremove⟩ := l.exists_cut h k
    rw [hremove, hget]

/-- The two parts of a leaf, on the two sides of a key. -/
structure Halves (l left : Leaf) (key : Key) (right : Leaf) : Prop where
  left_nonempty : left.entries ≠ []
  right_nonempty : right.entries ≠ []
  entries : left.entries ++ right.entries = l.entries
  below : ∀ e ∈ left.entries, e.key < key
  above : ∀ e ∈ right.entries, key ≤ e.key

theorem split_halves {ε : Type} (h : Entries.InOrder l.entries) (hlen : 2 ≤ l.entries.length) :
    ∃ left key right, (l.split : Checked ε (Leaf × Key × Leaf)) = .ok (left, key, right) ∧
      l.Halves left key right := by
  have hjoin := List.take_append_drop (l.entries.length / 2) l.entries
  rw [split]
  cases hdrop : l.entries.drop (l.entries.length / 2) with
  | nil =>
    have hempty := congrArg List.length hdrop
    rw [List.length_drop, List.length_nil] at hempty
    omega
  | cons first rest =>
    rw [hdrop] at hjoin
    obtain ⟨-, hright, hacross⟩ := List.pairwise_append.mp (hjoin ▸ h)
    refine ⟨_, _, _, rfl, ?_⟩
    constructor
    · intro hnil
      have hlow := congrArg List.length hnil
      rw [List.length_take, List.length_nil] at hlow
      omega
    · exact List.cons_ne_nil first rest
    · exact hjoin
    · intro e he
      exact hacross e he first List.mem_cons_self
    · intro e he
      rcases List.mem_cons.mp he with rfl | he
      · exact le_refl _
      · exact le_of_lt ((List.pairwise_cons.mp hright).1 e he)

end Leaf

/-! ## Branches -/

namespace Branch

variable {b : Branch} {k q : Key} {c : PageIndex}

/-- Keys in order, and one more child than keys. -/
structure Ordered (b : Branch) : Prop where
  increasing : b.keys.Pairwise (· < ·)
  paired : b.children.length = b.keys.length + 1

/-- The child is told by the number of keys that are not above the one sought. -/
theorem childIndex_eq_countP (h : b.keys.Pairwise (· < ·)) (q : Key) : b.childIndex q = b.keys.countP (· ≤ q) := by
  obtain ⟨hle, hbelow, habove⟩ := b.leads_childIndex h q
  have hlow : (b.keys.take (b.childIndex q)).countP (· ≤ q) = b.childIndex q := by
    rw [List.countP_eq_length.mpr (by simpa using hbelow), List.length_take, Nat.min_eq_left hle]
  have hhigh : (b.keys.drop (b.childIndex q)).countP (· ≤ q) = 0 :=
    List.countP_eq_zero.mpr (by simpa using habove)
  rw [← List.take_append_drop (b.childIndex q) b.keys, List.countP_append, hlow, hhigh, Nat.add_zero]

theorem childIndex_le (h : b.keys.Pairwise (· < ·)) (q : Key) : b.childIndex q ≤ b.keys.length :=
  (b.leads_childIndex h q).1

theorem childIndex_mono (h : b.keys.Pairwise (· < ·)) (hq : k ≤ q) : b.childIndex k ≤ b.childIndex q := by
  rw [childIndex_eq_countP h, childIndex_eq_countP h]
  apply List.countP_mono_left
  intro x _ hx
  exact decide_eq_true (le_trans (of_decide_eq_true hx) hq)

theorem Ordered.exists_child (h : b.Ordered) (q : Key) : ∃ child, b.child? q = some child := by
  have hlt : b.childIndex q < b.children.length := by
    rw [h.paired]
    exact Nat.lt_succ_of_le (childIndex_le h.increasing q)
  exact ⟨_, List.getElem?_eq_getElem hlt⟩

/-! ### Putting a key in -/

theorem insert_increasing (h : b.keys.Pairwise (· < ·)) (hk : k ∉ b.keys) :
    (b.insert k c).keys.Pairwise (· < ·) := by
  obtain ⟨hle, hbelow, habove⟩ := b.leads_childIndex h k
  rw [insert, insertIdx_eq hle]
  obtain ⟨hlow, hhigh, hacross⟩ := List.pairwise_append.mp ((List.take_append_drop (b.childIndex k) b.keys).symm ▸ h)
  have hlt : ∀ x ∈ b.keys.take (b.childIndex k), x < k := by
    intro x hx
    apply lt_of_le_of_ne (hbelow x hx)
    rintro rfl
    exact hk (List.mem_of_mem_take hx)
  apply List.pairwise_append.mpr
  refine ⟨hlow, List.pairwise_cons.mpr ⟨habove, hhigh⟩, ?_⟩
  intro x hx y hy
  rcases List.mem_cons.mp hy with rfl | hy
  · exact hlt x hx
  · exact hacross x hx y hy

theorem insert_ordered (h : b.Ordered) (hk : k ∉ b.keys) : (b.insert k c).Ordered where
  increasing := insert_increasing h.increasing hk
  paired := by
    have hle := childIndex_le h.increasing k
    have hpaired := h.paired
    rw [insert, List.length_insertIdx_of_le_length hle, List.length_insertIdx_of_le_length (by omega), hpaired]

/-- One key more is below the keys from the new one on. -/
theorem childIndex_insert (h : b.keys.Pairwise (· < ·)) (hk : k ∉ b.keys) (q : Key) :
    (b.insert k c).childIndex q = if k ≤ q then b.childIndex q + 1 else b.childIndex q := by
  rw [childIndex_eq_countP (insert_increasing h hk), childIndex_eq_countP h, insert,
    insertIdx_eq (childIndex_le h k), List.countP_append, List.countP_cons]
  conv_rhs => rw [← List.take_append_drop (b.childIndex k) b.keys, List.countP_append]
  simp only [decide_eq_true_eq]
  split
  · exact Nat.add_assoc _ _ 1
  · rfl

/-- A branch with one key more, and the child that the key leads to. -/
structure Gains (b : Branch) (k : Key) (c : PageIndex) (b' : Branch) : Prop where
  ordered : b'.Ordered
  keys (x : Key) : x ∈ b'.keys ↔ x = k ∨ x ∈ b.keys
  taken (q : Key) : k ≤ q → b.childIndex q = b.childIndex k → b'.child? q = some c
  kept (q : Key) : ¬ (k ≤ q ∧ b.childIndex q = b.childIndex k) → b'.child? q = b.child? q

theorem insert_gains (h : b.Ordered) (hk : k ∉ b.keys) : b.Gains k c (b.insert k c) where
  ordered := insert_ordered h hk
  keys x := by
    rw [insert]
    exact List.mem_insertIdx (childIndex_le h.increasing k)
  taken q hq hsame := by
    have hle : b.childIndex k + 1 ≤ b.children.length := by
      rw [h.paired]
      exact Nat.succ_le_succ (childIndex_le h.increasing k)
    rw [child?, childIndex_insert h.increasing hk, if_pos hq, hsame, insert]
    exact List.getElem?_insertIdx_self.trans (if_pos hle)
  kept q hother := by
    rw [child?, child?, childIndex_insert h.increasing hk, insert, List.getElem?_insertIdx]
    by_cases hq : k ≤ q
    · have hmono := childIndex_mono h.increasing hq
      have hne : b.childIndex q ≠ b.childIndex k := fun hsame => hother ⟨hq, hsame⟩
      rw [if_pos hq, if_neg (by omega), if_neg (by omega), Nat.add_sub_cancel]
    · have hmono := childIndex_mono h.increasing (le_of_not_ge hq)
      rw [if_neg hq, if_pos (by omega)]

/-! ### Splitting -/

/-- The two parts of a branch, on the two sides of a key. -/
structure Halves (b left : Branch) (median : Key) (right : Branch) : Prop where
  left_ordered : left.Ordered
  right_ordered : right.Ordered
  keys : b.keys = left.keys ++ median :: right.keys
  children : b.children = left.children ++ right.children
  below (q : Key) : q < median → left.child? q = b.child? q
  above (q : Key) : median ≤ q → right.child? q = b.child? q

theorem Ordered.halves {left right : Branch} {median : Key} (h : b.Ordered)
    (hkeys : b.keys = left.keys ++ median :: right.keys) (hchildren : b.children = left.children ++ right.children)
    (hleft : left.children.length = left.keys.length + 1) : b.Halves left median right := by
  obtain ⟨hlow, hrest, hacross⟩ := List.pairwise_append.mp (hkeys ▸ h.increasing)
  obtain ⟨habove, hhigh⟩ := List.pairwise_cons.mp hrest
  have hright : right.children.length = right.keys.length + 1 := by
    have hpaired := h.paired
    rw [hkeys, hchildren, List.length_append, List.length_append, List.length_cons] at hpaired
    omega
  have hcount : ∀ q, b.childIndex q =
      left.childIndex q + ((if median ≤ q then 1 else 0) + right.childIndex q) := by
    intro q
    rw [childIndex_eq_countP h.increasing, childIndex_eq_countP hlow, childIndex_eq_countP hhigh, hkeys,
      List.countP_append, List.countP_cons]
    simp only [decide_eq_true_eq]
    omega
  refine ⟨⟨hlow, hleft⟩, ⟨hhigh, hright⟩, hkeys, hchildren, ?_, ?_⟩
  · intro q hq
    have hzero : right.childIndex q = 0 := by
      rw [childIndex_eq_countP hhigh]
      apply List.countP_eq_zero.mpr
      intro x hx
      simpa using lt_trans hq (habove x hx)
    have hlt : left.childIndex q < left.children.length := by
      rw [hleft]
      exact Nat.lt_succ_of_le (childIndex_le hlow q)
    rw [child?, child?, hcount, if_neg (not_le.mpr hq), hzero, Nat.add_zero, hchildren,
      List.getElem?_append_left hlt]
  · intro q hq
    have hall : left.childIndex q = left.keys.length := by
      rw [childIndex_eq_countP hlow]
      apply List.countP_eq_length.mpr
      intro x hx
      simpa using le_of_lt (lt_of_lt_of_le (hacross x hx median List.mem_cons_self) hq)
    rw [child?, child?, hcount, if_pos hq, hall, hchildren, ← Nat.add_assoc, ← hleft,
      List.getElem?_append_right (Nat.le_add_right _ _), Nat.add_sub_cancel_left]

theorem split_halves {ε : Type} (h : b.Ordered) (hne : b.keys ≠ []) :
    ∃ left median right, (b.split : Checked ε (Branch × Key × Branch)) = .ok (left, median, right) ∧
      b.Halves left median right := by
  have hlt : b.keys.length / 2 < b.keys.length := by
    have hpos := List.length_pos_iff.mpr hne
    omega
  refine ⟨_, _, _, split_eq rfl (List.getElem?_eq_getElem hlt), ?_⟩
  apply h.halves
  · rw [← List.drop_eq_getElem_cons hlt, List.take_append_drop]
  · rw [List.take_append_drop]
  · have hpaired := h.paired
    rw [List.length_take, List.length_take]
    omega

end Branch

/-- Branches with keys in order lead every key to a child, before and after a key is put in and on the two sides
of a split. Leaves with entries in order are finite maps, and are split between two keys. -/
theorem Node.operations_keep_order :
    (∀ b : Branch, b.Ordered →
      (∀ q, ∃ child, b.child? q = some child) ∧
      (∀ k c, k ∉ b.keys → b.Gains k c (b.insert k c)) ∧
      (b.keys ≠ [] → ∀ ε, ∃ left median right,
        (b.split : Checked ε (Branch × Key × Branch)) = .ok (left, median, right) ∧
          b.Halves left median right)) ∧
    ∀ l : Leaf, Entries.InOrder l.entries →
      l.ActsAsMap ∧
      (2 ≤ l.entries.length → ∀ ε, ∃ left key right,
        (l.split : Checked ε (Leaf × Key × Leaf)) = .ok (left, key, right) ∧ l.Halves left key right) := by
  constructor
  · intro b h
    exact ⟨h.exists_child, fun k c hk => Branch.insert_gains h hk, fun hne ε => Branch.split_halves h hne⟩
  · intro l h
    exact ⟨Leaf.actsAsMap h, fun hlen ε => Leaf.split_halves h hlen⟩

/-- A key between two others takes the upper part of the child between them, and leaves the rest of it. -/
theorem Node.operations_keep_order_between :
    let key (n : Int64) : Key := ⟨0, 0, n⟩
    let b : Branch := ⟨.fresh 0, [key 10, key 20], [1, 2, 3]⟩
    let l : Leaf := ⟨.fresh 0, [⟨key 10, 5⟩, ⟨key 20, 6⟩]⟩
    (b.insert (key 15) 4).child? (key 17) = some 4 ∧ (b.insert (key 15) 4).child? (key 12) = some 2 ∧
      (∃ left median right, (b.split : Checked NodeError (Branch × Key × Branch)) = .ok (left, median, right) ∧
        b.Halves left median right) ∧
      (l.insert (key 15) 7).1.get? (key 15) = some 7 ∧ (l.remove (key 10)).1.get? (key 10) = none ∧
      ∃ left first right, (l.split : Checked NodeError (Leaf × Key × Leaf)) = .ok (left, first, right) ∧
        l.Halves left first right := by
  intro key b l
  have hb : b.Ordered := ⟨by decide, rfl⟩
  have hindex : ∀ q, b.childIndex q = b.keys.countP (· ≤ q) := Branch.childIndex_eq_countP hb.increasing
  obtain ⟨-, hgains, hsplit⟩ := Node.operations_keep_order.1 b hb
  obtain ⟨hmap, hhalves⟩ := Node.operations_keep_order.2 l (by unfold Entries.InOrder; decide)
  have hnew := hgains (key 15) 4 (by decide)
  refine ⟨?_, ?_, hsplit (by decide) NodeError, ?_, ?_, hhalves (by decide) NodeError⟩
  · apply hnew.taken
    · decide
    · rw [hindex, hindex]
      decide
  · rw [hnew.kept _ fun h => absurd h.1 (by decide), Branch.child?, hindex]
    decide
  · rw [hmap.insert_get, Function.update_self]
  · rw [hmap.remove_get, Function.update_self]

end RefStore
