import RefStore.Node.Branch
import RefStore.Proofs.Bisections
import RefStore.Proofs.Keys

/-!
# Nodes in key order

What finding, inserting and removing do to entries in key order, and where a branch with keys in
order leads. Main statements: `Leaf.exists_cut` and `Branch.childIndex_eq`.
-/

namespace RefStore

theorem insertIdx_eq {α : Type} {xs : List α} {i : Nat} (h : i ≤ xs.length) (x : α) :
    xs.insertIdx i x = xs.take i ++ x :: xs.drop i := by
  induction xs generalizing i with
  | nil =>
    obtain rfl : i = 0 := by simpa using h
    rfl
  | cons y ys ih =>
    cases i with
    | zero => rfl
    | succ i => simp [ih (by simpa using h)]

/-- Entries in key order, each key once. -/
def Entries.InOrder (es : List Entry) : Prop := es.Pairwise fun a b => a.key < b.key

/-- Entries cut at a key: those below it, the value at it if there is one, those above it. -/
structure Entries.Cut (es : List Entry) (key : Key) (below : List Entry) (old : Option Int32)
    (above : List Entry) : Prop where
  eq : es = below ++ (old.toList.map fun value => ⟨key, value⟩) ++ above
  below_lt : ∀ e ∈ below, e.key < key
  lt_above : ∀ e ∈ above, key < e.key

/-- A cut is told by its key. -/
theorem Entries.Cut.below_eq {es below above : List Entry} {old : Option Int32} {key : Key}
    (h : Entries.Cut es key below old above) : below = es.filter fun e => e.key < key := by
  have hbelow : (below.filter fun e => e.key < key) = below :=
    List.filter_eq_self.mpr fun e he => decide_eq_true (h.below_lt e he)
  have hrest : (((old.toList.map fun value => (⟨key, value⟩ : Entry)) ++ above).filter fun e => e.key < key) = [] := by
    refine List.filter_eq_nil_iff.mpr fun e he => ?_
    rw [decide_eq_true_iff]
    rcases List.mem_append.mp he with he | he
    · obtain ⟨value, -, rfl⟩ := List.mem_map.mp he
      exact lt_irrefl key
    · exact lt_asymm (h.lt_above e he)
  rw [h.eq, List.append_assoc, List.filter_append, hbelow, hrest, List.append_nil]

theorem Entries.Cut.above_eq {es below above : List Entry} {old : Option Int32} {key : Key}
    (h : Entries.Cut es key below old above) : above = es.filter fun e => key < e.key := by
  have habove : (above.filter fun e => key < e.key) = above :=
    List.filter_eq_self.mpr fun e he => decide_eq_true (h.lt_above e he)
  have hrest : ((below ++ old.toList.map fun value => (⟨key, value⟩ : Entry)).filter fun e => key < e.key) = [] := by
    refine List.filter_eq_nil_iff.mpr fun e he => ?_
    rw [decide_eq_true_iff]
    rcases List.mem_append.mp he with he | he
    · exact lt_asymm (h.below_lt e he)
    · obtain ⟨value, -, rfl⟩ := List.mem_map.mp he
      exact lt_irrefl key
  rw [h.eq, List.filter_append, habove, hrest, List.nil_append]

theorem Entries.Cut.length_eq {es below above : List Entry} {old : Option Int32} {key : Key}
    (h : Entries.Cut es key below old above) :
    es.length = below.length + old.toList.length + above.length := by
  rw [h.eq, List.length_append, List.length_append, List.length_map]

theorem Entries.Cut.length_put_le {es below above : List Entry} {old : Option Int32} {key : Key}
    (h : Entries.Cut es key below old above) (value : Int32) :
    (below ++ ⟨key, value⟩ :: above).length ≤ es.length + 1 := by
  rw [h.length_eq, List.length_append, List.length_cons]
  omega

theorem Entries.Cut.length_drop_le {es below above : List Entry} {old : Option Int32} {key : Key}
    (h : Entries.Cut es key below old above) : (below ++ above).length ≤ es.length := by
  rw [h.length_eq, List.length_append]
  omega

/-- The number of entries after one is put in. -/
theorem Entries.Cut.count_put {es below above : List Entry} {old : Option Int32} {key : Key}
    (h : Entries.Cut es key below old above) {count : UInt64} (hc : count.toNat = es.length)
    (hlt : es.length + 1 < UInt64.size) (value : Int32) :
    (if old.isNone then count + 1 else count).toNat = (below ++ ⟨key, value⟩ :: above).length := by
  have hlen := h.length_eq
  rw [List.length_append, List.length_cons]
  cases old with
  | none =>
    rw [Option.isNone_none, if_pos rfl, UInt64.toNat_add, hc, UInt64.toNat_one, Nat.mod_eq_of_lt hlt, hlen]
    simp only [Option.toList_none, List.length_nil]
    omega
  | some v =>
    rw [if_neg (by simp), hc, hlen]
    simp only [Option.toList_some, List.length_singleton]
    omega

/-- The number of entries after one is taken out. -/
theorem Entries.Cut.count_drop {es below above : List Entry} {v : Int32} {key : Key}
    (h : Entries.Cut es key below (some v) above) {count : UInt64} (hc : count.toNat = es.length) :
    (if count = 0 then 0 else count - 1).toNat = (below ++ above).length := by
  have hlen := h.length_eq
  simp only [Option.toList_some, List.length_singleton] at hlen
  have h1 : 1 ≤ count := by
    rw [UInt64.le_iff_toNat_le, UInt64.toNat_one]
    omega
  have h0 : count ≠ 0 := by
    rintro rfl
    exact absurd h1 (by decide)
  rw [if_neg h0, UInt64.toNat_sub_of_le _ _ h1, UInt64.toNat_one, List.length_append]
  omega

theorem Entries.Cut.put {es below above : List Entry} {old : Option Int32} {key : Key}
    (h : Entries.Cut es key below old above) (value : Int32) :
    Entries.Cut (below ++ ⟨key, value⟩ :: above) key below (some value) above where
  eq := by simp
  below_lt := h.below_lt
  lt_above := h.lt_above

theorem Entries.Cut.drop {es below above : List Entry} {old : Option Int32} {key : Key}
    (h : Entries.Cut es key below old above) : Entries.Cut (below ++ above) key below none above where
  eq := by simp
  below_lt := h.below_lt
  lt_above := h.lt_above

/-- The entry at the key of a cut. -/
theorem Entries.Cut.mem_self {es below above : List Entry} {old : Option Int32} {key : Key}
    (h : Entries.Cut es key below old above) {value : Int32} : ⟨key, value⟩ ∈ es ↔ old = some value := by
  have hbelow : (⟨key, value⟩ : Entry) ∉ below := fun hm => absurd (h.below_lt _ hm) (lt_irrefl key)
  have habove : (⟨key, value⟩ : Entry) ∉ above := fun hm => absurd (h.lt_above _ hm) (lt_irrefl key)
  rw [h.eq]
  simp [hbelow, habove]

/-- The entries at other keys. -/
theorem Entries.Cut.mem_of_ne {es below above : List Entry} {old : Option Int32} {key : Key}
    (h : Entries.Cut es key below old above) {e : Entry} (hne : e.key ≠ key) :
    e ∈ es ↔ e ∈ below ∨ e ∈ above := by
  have hold : e ∉ old.toList.map fun value => ⟨key, value⟩ := by
    intro hm
    obtain ⟨value, -, rfl⟩ := List.mem_map.mp hm
    exact hne rfl
  rw [h.eq, List.mem_append, List.mem_append, or_iff_left hold]

theorem Entries.Cut.inOrder_put {es below above : List Entry} {old : Option Int32} {key : Key}
    (h : Entries.Cut es key below old above) (ho : Entries.InOrder es) (value : Int32) :
    Entries.InOrder (below ++ ⟨key, value⟩ :: above) := by
  have hes := h.eq ▸ ho
  obtain ⟨hl, hr, hlr⟩ := List.pairwise_append.mp hes
  obtain ⟨hb, -, -⟩ := List.pairwise_append.mp hl
  refine List.pairwise_append.mpr ⟨hb, List.pairwise_cons.mpr ⟨h.lt_above, hr⟩, fun a ha b hb' => ?_⟩
  rcases List.mem_cons.mp hb' with rfl | hb'
  · exact h.below_lt a ha
  · exact lt_trans (h.below_lt a ha) (h.lt_above b hb')

theorem Entries.Cut.inOrder_drop {es below above : List Entry} {old : Option Int32} {key : Key}
    (h : Entries.Cut es key below old above) (ho : Entries.InOrder es) :
    Entries.InOrder (below ++ above) := by
  obtain ⟨hl, hr, hlr⟩ := List.pairwise_append.mp (h.eq ▸ ho)
  obtain ⟨hb, -, -⟩ := List.pairwise_append.mp hl
  exact List.pairwise_append.mpr ⟨hb, hr, fun a ha b hb' => hlr a (List.mem_append_left _ ha) b hb'⟩

theorem Entries.Cut.mem {es below above : List Entry} {old : Option Int32} {key : Key}
    (h : Entries.Cut es key below old above) {e : Entry} (he : e ∈ below ++ above) : e ∈ es := by
  rw [h.eq]
  rcases List.mem_append.mp he with he | he
  · exact List.mem_append_left _ (List.mem_append_left _ he)
  · exact List.mem_append_right _ he

/-- A cut of some entries is one of more entries below and above. -/
theorem Entries.Cut.extend {es below above : List Entry} {old : Option Int32} {key : Key}
    (h : Entries.Cut es key below old above) {xs ys : List Entry} (hx : ∀ e ∈ xs, e.key < key)
    (hy : ∀ e ∈ ys, key < e.key) :
    Entries.Cut (xs ++ es ++ ys) key (xs ++ below) old (above ++ ys) where
  eq := by
    rw [h.eq]
    simp only [List.append_assoc]
  below_lt e he := (List.mem_append.mp he).elim (hx e) (h.below_lt e)
  lt_above e he := (List.mem_append.mp he).elim (h.lt_above e) (hy e)

namespace Leaf

theorem inOrder_search {es : List Entry} (h : Entries.InOrder es) (key : Key) :
    Bisection.InOrder es fun e => compare e.key key := by
  refine List.Pairwise.imp (fun {a b} hab => ?_) h
  rcases lt_or_ge a.key key with hlt | hge
  · exact .inl (Key.compare_eq_lt.mpr hlt)
  · exact .inr (Key.compare_eq_gt.mpr (lt_of_le_of_lt hge hab))

/-- The place found cuts the entries, and the entry there is looked up, replaced or dropped. -/
theorem exists_cut (leaf : Leaf) (h : Entries.InOrder leaf.entries) (key : Key) :
    ∃ below old above, Entries.Cut leaf.entries key below old above ∧ leaf.get? key = old ∧
      (∀ value, leaf.insert key value =
        ({ leaf with entries := below ++ ⟨key, value⟩ :: above }, old)) ∧
      leaf.remove key = ({ leaf with entries := below ++ above }, old) := by
  have ha := Bisection.search_answers (inOrder_search h key)
  cases hf : leaf.find key with
  | found i =>
    rw [find] at hf
    rw [hf] at ha
    obtain ⟨e, he, hkey, hlt, hgt⟩ := ha
    obtain ⟨hi, hget⟩ := List.getElem?_eq_some_iff.mp he
    obtain rfl := Key.compare_eq_eq.mp hkey
    have hsplit : leaf.entries = leaf.entries.take i ++ e :: leaf.entries.drop (i + 1) := by
      rw [← hget, ← List.drop_eq_getElem_cons hi, List.take_append_drop]
    have hl : (leaf.entries.take i).length = i := by
      rw [List.length_take]
      omega
    refine ⟨leaf.entries.take i, some e.value, leaf.entries.drop (i + 1),
      ⟨by simpa using hsplit, fun x hx => Key.compare_eq_lt.mp (hlt x hx),
        fun x hx => Key.compare_eq_gt.mp (hgt x hx)⟩, ?_, fun value => ?_, ?_⟩
    · simp only [get?, find, hf, he, Option.map_some]
    · simp only [insert, find, hf, he, Option.map_some, Prod.mk.injEq, and_true]
      congr 1
      rw [List.modify_eq_take_cons_drop hi, hget]
    · simp only [remove, find, hf, he, Option.map_some, Prod.mk.injEq, and_true]
      congr 1
      rw [List.eraseIdx_eq_take_drop_succ]
  | absent i =>
    rw [find] at hf
    rw [hf] at ha
    obtain ⟨hi, hlt, hgt⟩ := ha
    refine ⟨leaf.entries.take i, none, leaf.entries.drop i,
      ⟨by simp, fun x hx => Key.compare_eq_lt.mp (hlt x hx),
        fun x hx => Key.compare_eq_gt.mp (hgt x hx)⟩, ?_, fun value => ?_, ?_⟩
    · simp only [get?, find, hf]
    · simp only [insert, find, hf, Prod.mk.injEq, and_true]
      congr 1
      exact insertIdx_eq hi _
    · simp only [remove, find, hf, Prod.mk.injEq, and_true]
      rw [List.take_append_drop]

end Leaf

namespace Branch

/-- The keys before a child are not above the key sought, and those from it on are. -/
def Leads (keys : List Key) (key : Key) (i : Nat) : Prop :=
  i ≤ keys.length ∧ (∀ k ∈ keys.take i, k ≤ key) ∧ ∀ k ∈ keys.drop i, key < k

theorem leads_childIndex (branch : Branch) (h : branch.keys.Pairwise (· < ·)) (key : Key) :
    Leads branch.keys key (branch.childIndex key) := by
  have hin : Bisection.InOrder branch.keys fun k => compare k key := by
    refine List.Pairwise.imp (fun {a b} hab => ?_) h
    rcases lt_or_ge a key with hlt | hge
    · exact .inl (Key.compare_eq_lt.mpr hlt)
    · exact .inr (Key.compare_eq_gt.mpr (lt_of_le_of_lt hge hab))
  have ha := Bisection.search_answers hin
  rw [childIndex]
  cases hf : Bisection.search branch.keys fun k => compare k key with
  | found i =>
    rw [hf] at ha
    obtain ⟨k, hk, hkey, hlt, hgt⟩ := ha
    obtain ⟨hi, hget⟩ := List.getElem?_eq_some_iff.mp hk
    obtain rfl := Key.compare_eq_eq.mp hkey
    refine ⟨hi, fun x hx => ?_, fun x hx => Key.compare_eq_gt.mp (hgt x hx)⟩
    rw [List.take_add_one, hk] at hx
    rcases List.mem_append.mp hx with hx | hx
    · exact le_of_lt (Key.compare_eq_lt.mp (hlt x hx))
    · exact le_of_eq (List.mem_singleton.mp hx)
  | absent i =>
    rw [hf] at ha
    obtain ⟨hi, hlt, hgt⟩ := ha
    exact ⟨hi, fun x hx => le_of_lt (Key.compare_eq_lt.mp (hlt x hx)),
      fun x hx => Key.compare_eq_gt.mp (hgt x hx)⟩

theorem Leads.unique {keys : List Key} {key : Key} {i j : Nat} (hi : Leads keys key i)
    (hj : Leads keys key j) : i = j := by
  -- a key between the two places would be both above the key sought and not above it
  have key_between : ∀ {a b : Nat}, Leads keys key a → Leads keys key b → ¬ a < b := by
    rintro a b ⟨-, -, ha⟩ ⟨hb, hb', -⟩ hab
    have hlt : a < keys.length := by omega
    have h₁ : keys[a] ∈ keys.drop a := List.mem_drop_iff_getElem.mpr ⟨0, by omega, by simp⟩
    have h₂ : keys[a] ∈ keys.take b := List.mem_take_iff_getElem.mpr ⟨a, by omega, rfl⟩
    exact absurd (ha _ h₁) (not_lt.mpr (hb' _ h₂))
  exact Nat.le_antisymm (Nat.le_of_not_lt (key_between hj hi)) (Nat.le_of_not_lt (key_between hi hj))

theorem childIndex_eq {branch : Branch} (h : branch.keys.Pairwise (· < ·)) {key : Key} {i : Nat}
    (hi : Leads branch.keys key i) : branch.childIndex key = i :=
  (leads_childIndex branch h key).unique hi

/-- The two halves of a branch, with the key at its middle between them. -/
theorem split_eq {ε : Type} {branch : Branch} {median : Key} {middle : Nat}
    (hmid : branch.keys.length / 2 = middle) (hm : branch.keys[middle]? = some median) :
    (branch.split : Checked ε (Branch × Key × Branch)) =
      .ok (⟨branch.links, branch.keys.take middle, branch.children.take (middle + 1)⟩, median,
        ⟨⟨UInt16.ofNat (branch.keys.drop (middle + 1)).length, branch.links.parent, 0, 0⟩,
          branch.keys.drop (middle + 1), branch.children.drop (middle + 1)⟩) := by
  obtain ⟨hlt, rfl⟩ := List.getElem?_eq_some_iff.mp hm
  simp only [split, hmid, List.drop_eq_getElem_cons hlt]

end Branch

end RefStore
