import Mathlib.Logic.Function.Basic
import Std.Data.TreeMap

/-!
# Entries of maps

What a map has at a key after an entry was set or removed.
-/

namespace RefStore

variable {κ β : Type} [Ord κ] [Std.TransOrd κ] [Std.LawfulEqOrd κ] {t : Std.TreeMap κ β} {a k : κ} {v : β}

theorem lookup_insert [DecidableEq κ] (t : Std.TreeMap κ β) (k : κ) (v : β) (a : κ) :
    (t.insert k v)[a]? = if a = k then some v else t[a]? := by
  simp only [Std.TreeMap.getElem?_insert, Std.compare_eq_iff_eq, eq_comm (a := k)]

theorem lookup_erase [DecidableEq κ] (t : Std.TreeMap κ β) (k a : κ) :
    (t.erase k)[a]? = if a = k then none else t[a]? := by
  simp only [Std.TreeMap.getElem?_erase, Std.compare_eq_iff_eq, eq_comm (a := k)]

theorem lookup_insert_of_ne (h : a ≠ k) : (t.insert k v)[a]? = t[a]? := by
  rw [Std.TreeMap.getElem?_insert, if_neg (by simpa using h.symm)]

theorem lookup_erase_of_ne (h : a ≠ k) : (t.erase k)[a]? = t[a]? := by
  rw [Std.TreeMap.getElem?_erase, if_neg (by simpa using h.symm)]

theorem lookup_insert_eq_some [DecidableEq κ] {x : β} :
    (t.insert k v)[a]? = some x ↔ a = k ∧ x = v ∨ a ≠ k ∧ t[a]? = some x := by
  rw [lookup_insert]
  split
  · next he => simp [he, eq_comm]
  · next hne => simp [hne]

theorem lookup_erase_eq_some [DecidableEq κ] {x : β} : (t.erase k)[a]? = some x ↔ a ≠ k ∧ t[a]? = some x := by
  rw [lookup_erase]
  split
  · next he => simp [he]
  · next hne => simp [hne]

/-- Entries at different keys may be set in any order. -/
theorem lookup_insert_comm {k' : κ} (h : k ≠ k') (t : Std.TreeMap κ β) (v v' : β) (a : κ) :
    ((t.insert k v).insert k' v')[a]? = ((t.insert k' v').insert k v)[a]? := by
  classical
  by_cases ha : a = k
  · subst ha
    rw [lookup_insert_of_ne h, Std.TreeMap.getElem?_insert_self, Std.TreeMap.getElem?_insert_self]
  · rw [lookup_insert_of_ne (k := k) ha, lookup_insert, lookup_insert_of_ne ha, ← lookup_insert]

/-- So may one be set and another one removed. -/
theorem lookup_insert_erase {k' : κ} (h : k ≠ k') (t : Std.TreeMap κ β) (v : β) (a : κ) :
    ((t.insert k v).erase k')[a]? = ((t.erase k').insert k v)[a]? := by
  classical
  by_cases ha : a = k
  · subst ha
    rw [lookup_erase_of_ne h, Std.TreeMap.getElem?_insert_self, Std.TreeMap.getElem?_insert_self]
  · rw [lookup_insert_of_ne (k := k) ha, lookup_erase, lookup_insert_of_ne ha, ← lookup_erase]

theorem update_cases {α : Type} [DecidableEq α] {f : α → Option β} {a i : α} {new : Option β} {x : β}
    (h : Function.update f a new i = some x) : i = a ∧ new = some x ∨ i ≠ a ∧ f i = some x := by
  by_cases hi : i = a
  · subst hi
    rw [Function.update_self] at h
    exact .inl ⟨rfl, h⟩
  · rw [Function.update_of_ne hi] at h
    exact .inr ⟨hi, h⟩

theorem update_none_eq_some {α : Type} [DecidableEq α] {f : α → Option β} {a i : α} {x : β} :
    Function.update f a none i = some x ↔ i ≠ a ∧ f i = some x := by
  rw [Function.update_apply]
  split
  · next he => simp [he]
  · next hne => simp [hne]

/-- A key that had nothing has one entry more. -/
theorem update_some_eq_some {α : Type} [DecidableEq α] {f : α → Option β} {a i : α} {new x : β} (h : f a = none) :
    Function.update f a (some new) i = some x ↔ i = a ∧ x = new ∨ f i = some x := by
  rw [Function.update_apply]
  split
  · next he => simp [he, h, eq_comm]
  · next hne => simp [hne]

end RefStore
