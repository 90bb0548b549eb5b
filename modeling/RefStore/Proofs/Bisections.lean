import Mathlib.Data.List.Basic
import RefStore.Bisection

/-!
# Bisection of a list in order

On a list whose elements come in the order of what they are compared with, the search finds the
element sought, or the place between the smaller elements and the larger ones.
-/

namespace RefStore.Bisection

variable {α : Type}

/-- The range keeps the last index that the probes do not put above what is sought. -/
theorem narrow_spec {probe : Nat → Ordering} {base size : Nat} (hs : 0 < size)
    (h : ∀ i j, i ≤ j → j < base + size → probe i = .gt → probe j = .gt) :
    base ≤ narrow probe base size ∧ narrow probe base size < base + size ∧
      (narrow probe base size = base ∨ probe (narrow probe base size) ≠ .gt) ∧
      ∀ i, narrow probe base size < i → i < base + size → probe i = .gt := by
  fun_induction narrow probe base size with
  | case1 base size hlt middle ih =>
    by_cases hm : probe middle = .gt
    · rw [dif_pos hm] at ih
      rw [if_pos hm]
      obtain ⟨hlo, hhi, hat, habove⟩ := ih (by omega) fun i j hij hj => h i j hij (by omega)
      refine ⟨hlo, by omega, hat, fun i hi hisz => ?_⟩
      by_cases hin : i < base + (size - size / 2)
      · exact habove i hi hin
      · exact h middle i (by omega) hisz hm
    · rw [dif_neg hm] at ih
      rw [if_neg hm]
      obtain ⟨hlo, hhi, hat, habove⟩ := ih (by omega) fun i j hij hj => h i j hij (by omega)
      refine ⟨by omega, by omega, ?_, fun i hi hisz => habove i hi (by omega)⟩
      rcases hat with hat | hat
      · exact .inr (by rw [hat]; exact hm)
      · exact .inr hat
  | case2 base size hge =>
    refine ⟨Nat.le_refl base, by omega, .inl rfl, fun i hi hisz => by omega⟩

/-- Elements that come before what is sought, then perhaps the one that is sought, then others. -/
def InOrder (xs : List α) (order : α → Ordering) : Prop :=
  xs.Pairwise fun a b => order a = .lt ∨ order b = .gt

/-- What a search says about where an element stands or belongs. -/
def Answers (xs : List α) (order : α → Ordering) : Place → Prop
  | .found i => ∃ x, xs[i]? = some x ∧ order x = .eq ∧ (∀ y ∈ xs.take i, order y = .lt) ∧
      ∀ y ∈ xs.drop (i + 1), order y = .gt
  | .absent i => i ≤ xs.length ∧ (∀ y ∈ xs.take i, order y = .lt) ∧ ∀ y ∈ xs.drop i, order y = .gt

theorem search_answers {xs : List α} {order : α → Ordering} (h : InOrder xs order) :
    Answers xs order (search xs order) := by
  have hpair := List.pairwise_iff_getElem.mp h
  rw [search, place, List.size_toArray]
  split
  · next h0 =>
    obtain rfl := List.length_eq_zero_iff.mp h0
    exact ⟨Nat.le_refl 0, by simp, by simp⟩
  · next h0 =>
    set probe : Nat → Ordering := fun i => (xs.toArray[i]?.map order).getD .gt with hprobe
    have hp : ∀ i (hi : i < xs.length), probe i = order xs[i] := by
      intro i hi
      simp [hprobe, List.getElem?_eq_getElem hi]
    have hmono : ∀ i j, i ≤ j → j < 0 + xs.length → probe i = .gt → probe j = .gt := by
      intro i j hij hj hi
      rcases Nat.lt_or_eq_of_le hij with hlt | rfl
      · rw [hp i (by omega)] at hi
        rw [hp j (by omega)]
        rcases hpair i j (by omega) (by omega) hlt with hl | hg
        · rw [hl] at hi
          cases hi
        · exact hg
      · exact hi
    obtain ⟨-, hlt, hat, habove⟩ := narrow_spec (by omega : 0 < xs.length) hmono
    generalize narrow probe 0 xs.length = r at hlt hat habove
    have hr : r < xs.length := by omega
    -- everything after the index reached is above what is sought
    have hafter : ∀ y ∈ xs.drop (r + 1), order y = .gt := by
      intro y hy
      obtain ⟨j, hj, rfl⟩ := List.mem_drop_iff_getElem.mp hy
      rw [← hp]
      exact habove _ (by omega) (by omega)
    -- and everything before it is below, unless it is above itself
    have hbefore : order xs[r] ≠ .gt → ∀ y ∈ xs.take r, order y = .lt := by
      intro hne y hy
      obtain ⟨j, hj, rfl⟩ := List.mem_take_iff_getElem.mp hy
      exact (hpair j r (by omega) hr (by omega)).resolve_right hne
    have hpr : (xs.toArray[r]?.map order).getD .gt = order xs[r] := hp r hr
    dsimp only
    rw [hpr]
    cases hc : order xs[r] with
    | eq => exact ⟨xs[r], List.getElem?_eq_getElem hr, hc, hbefore (by rw [hc]; simp), hafter⟩
    | lt =>
      refine ⟨hr, fun y hy => ?_, hafter⟩
      rw [List.take_add_one, List.getElem?_eq_getElem hr] at hy
      rcases List.mem_append.mp hy with hy | hy
      · exact hbefore (by rw [hc]; simp) y hy
      · rw [List.mem_singleton.mp hy, hc]
    | gt =>
      obtain rfl : r = 0 := hat.resolve_right fun hn => hn ((hp r hr).trans hc)
      refine ⟨Nat.zero_le _, by simp, fun y hy => ?_⟩
      rw [List.drop_eq_getElem_cons hr] at hy
      rcases List.mem_cons.mp hy with rfl | hy
      · exact hc
      · exact hafter y hy

end RefStore.Bisection
