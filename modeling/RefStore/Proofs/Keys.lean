import Mathlib.Order.Lattice
import RefStore.Key

/-!
# The order of keys

Keys in the linear order of their comparison.
-/

namespace RefStore.Key

theorem compare_swap (a b : Key) : compare b a = (compare a b).swap := Std.OrientedCmp.eq_swap

instance : LinearOrder Key where
  le a b := (compare a b).isLE
  lt a b := compare a b = .lt
  le_refl a := by simp
  le_trans a b c := Std.TransCmp.isLE_trans
  lt_iff_le_not_ge a b := by
    rw [compare_swap a b]
    cases compare a b <;> simp
  le_antisymm a b hab hba := by
    rw [compare_swap a b] at hba
    apply Std.LawfulEqOrd.eq_of_compare
    cases h : compare a b <;> simp_all
  le_total a b := by
    rw [compare_swap a b]
    cases compare a b <;> simp
  toDecidableLE a b := inferInstanceAs (Decidable ((compare a b).isLE = true))
  toDecidableLT a b := inferInstanceAs (Decidable (compare a b = .lt))
  compare_eq_compareOfLessAndEq a b := by
    rw [compareOfLessAndEq]
    split
    · next h => exact h
    · next h =>
      split
      · next he => simp [he]
      · next he =>
        cases hc : compare a b with
        | lt => exact absurd hc h
        | eq => exact absurd (Std.LawfulEqOrd.eq_of_compare hc) he
        | gt => rfl

theorem compare_eq_lt {a b : Key} : compare a b = .lt ↔ a < b := Iff.rfl

theorem compare_eq_eq {a b : Key} : compare a b = .eq ↔ a = b := Std.LawfulEqOrd.compare_eq_iff_eq

theorem compare_eq_gt {a b : Key} : compare a b = .gt ↔ b < a := Std.OrientedCmp.gt_iff_lt

end RefStore.Key
