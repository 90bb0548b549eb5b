import Mathlib.Data.List.Induction
import RefStore.Decimal

/-!
# Numerals

A numeral is read as a number when it is the decimal of the number, or differs from it by a plus, by zeros
in front of the digits, or by a minus before a zero. Main statement: `Decimal.signed?_eq_some_iff`.
-/

namespace RefStore

namespace Decimal

variable {cs : List Char} {n : Nat} {z : Int}

/-! ## Digits -/

/-- Digits that are added at the end. -/
theorem toDigits_concat {d : Nat} (hn : 0 < n) (hd : d < 10) :
    Nat.toDigits 10 (10 * n + d) = Nat.toDigits 10 n ++ [d.digitChar] := by
  rw [← Nat.toDigits_append_toDigits (by decide) hn hd, Nat.toDigits_of_lt_base hd]

theorem exists_digit {c : Char} (hc : c.isDigit = true) : ∃ d < 10, c = d.digitChar := by
  obtain ⟨hlow, hhigh⟩ : 48 ≤ c.toNat ∧ c.toNat ≤ 57 := Char.isDigit_iff_toNat.mp hc
  refine ⟨c.toNat - 48, by omega, ?_⟩
  apply Char.toNat_inj.mp
  rw [Nat.toNat_digitChar_of_lt_ten (by omega)]
  omega

/-- Digits are those of their number, after zeros. -/
theorem exists_zeros (hne : cs ≠ []) (hall : ∀ c ∈ cs, c.isDigit = true) :
    ∃ zeros, cs = List.replicate zeros '0' ++ Nat.toDigits 10 (Nat.ofDigitChars 10 cs 0) := by
  -- a number grows at its last digit, so the induction takes the digits from the end
  induction cs using List.reverseRecOn with
  | nil => exact absurd rfl hne
  | append_singleton ds c ih =>
    obtain ⟨d, hd, rfl⟩ := exists_digit (hall c (by simp))
    have hvalue : Nat.ofDigitChars 10 (ds ++ [d.digitChar]) 0 = 10 * Nat.ofDigitChars 10 ds 0 + d := by
      rw [Nat.ofDigitChars_append, Nat.ofDigitChars_cons_digitChar_of_lt_ten hd, Nat.ofDigitChars_nil]
    rw [hvalue]
    by_cases hempty : ds = []
    · subst hempty
      refine ⟨0, ?_⟩
      rw [Nat.ofDigitChars_nil, Nat.mul_zero, Nat.zero_add, Nat.toDigits_of_lt_base hd]
      rfl
    · obtain ⟨zeros, hds⟩ := ih hempty fun x hx => hall x (by simp [hx])
      rcases Nat.eq_zero_or_pos (Nat.ofDigitChars 10 ds 0) with hzero | hpos
      · refine ⟨zeros + 1, ?_⟩
        rw [hzero, Nat.toDigits_zero] at hds
        rw [hzero, Nat.mul_zero, Nat.zero_add, Nat.toDigits_of_lt_base hd, List.replicate_succ', hds]
      · refine ⟨zeros, ?_⟩
        rw [toDigits_concat hpos hd, ← List.append_assoc, ← hds]

theorem digits?_eq_some_iff : digits? cs = some n ↔ ∃ zeros, cs = List.replicate zeros '0' ++ Nat.toDigits 10 n := by
  rw [digits?]
  constructor
  · intro h
    split at h
    · next hdigits =>
      cases h
      exact exists_zeros hdigits.1 (List.all_eq_true.mp hdigits.2)
    · cases h
  · rintro ⟨zeros, rfl⟩
    have hall : ∀ c ∈ List.replicate zeros '0' ++ Nat.toDigits 10 n, c.isDigit = true := by
      intro c hc
      rcases List.mem_append.mp hc with hc | hc
      · rw [List.eq_of_mem_replicate hc]
        decide
      · exact Nat.isDigit_of_mem_toDigits (by decide) (by decide) hc
    rw [if_pos ⟨by simp [Nat.toDigits_ne_nil], List.all_eq_true.mpr hall⟩, Nat.ofDigitChars_append,
      Nat.ofDigitChars_replicate_zero, Nat.mul_zero, Nat.ofDigitChars_ten_toDigits]

/-- A sign is no digit. -/
theorem digits?_cons {c : Char} (hc : c.isDigit = false) (cs : List Char) : digits? (c :: cs) = none := by
  apply if_neg
  simp [hc]

/-! ## Signs -/

theorem unsigned?_eq_some_iff :
    unsigned? cs = some n ↔ digits? cs = some n ∨ ∃ ds, cs = '+' :: ds ∧ digits? ds = some n := by
  rw [unsigned?.eq_def]
  split
  · next ds => simp [digits?_cons (show '+'.isDigit = false by decide)]
  · next hplus =>
    apply (or_iff_left _).symm
    rintro ⟨ds, rfl, -⟩
    exact hplus ds rfl

theorem signed?_eq_some_iff_unsigned :
    signed? cs = some z ↔ (∃ n : Nat, z = n ∧ unsigned? cs = some n) ∨
      ∃ (n : Nat) (ds : List Char), z = -n ∧ cs = '-' :: ds ∧ digits? ds = some n := by
  rw [signed?.eq_def]
  split
  · next ds =>
    have hno : unsigned? ('-' :: ds) = none := digits?_cons (by decide) ds
    cases hds : digits? ds with
    | none => simp [hno, hds]
    | some n => simp [hno, hds, eq_comm]
  · next hminus =>
    have hno : ¬ ∃ (n : Nat) (ds : List Char), z = -n ∧ cs = '-' :: ds ∧ digits? ds = some n := by
      rintro ⟨n, ds, -, rfl, -⟩
      exact hminus ds rfl
    rw [or_iff_left hno]
    cases hcs : unsigned? cs with
    | none => simp
    | some n => simp [eq_comm]

/-- Spellings of a number beside its decimal: with a plus, with zeros in front of the digits, or with a minus
before a zero. -/
inductive Respells : Int → List Char → Prop
  | plus (n zeros : Nat) : Respells n ('+' :: (List.replicate zeros '0' ++ Nat.toDigits 10 n))
  | padded (n zeros : Nat) : Respells n (List.replicate (zeros + 1) '0' ++ Nat.toDigits 10 n)
  | paddedMinus (n zeros : Nat) : Respells (-n) ('-' :: (List.replicate (zeros + 1) '0' ++ Nat.toDigits 10 n))
  | minusZero : Respells 0 ['-', '0']

theorem spells_digits (n zeros : Nat) :
    List.replicate zeros '0' ++ Nat.toDigits 10 n = ofInt n ∨
      Respells n (List.replicate zeros '0' ++ Nat.toDigits 10 n) := by
  cases zeros with
  | zero => exact .inl rfl
  | succ zeros => exact .inr (.padded n zeros)

theorem spells_minus (n zeros : Nat) :
    '-' :: (List.replicate zeros '0' ++ Nat.toDigits 10 n) = ofInt (-n) ∨
      Respells (-n) ('-' :: (List.replicate zeros '0' ++ Nat.toDigits 10 n)) := by
  cases zeros with
  | zero =>
    cases n with
    | zero => exact .inr .minusZero
    | succ n => exact .inl rfl
  | succ zeros => exact .inr (.paddedMinus n zeros)

/-- The numerals that are read as a number. -/
theorem signed?_eq_some_iff : signed? cs = some z ↔ cs = ofInt z ∨ Respells z cs := by
  rw [signed?_eq_some_iff_unsigned]
  constructor
  · rintro (⟨n, rfl, h⟩ | ⟨n, ds, rfl, rfl, h⟩)
    · rcases unsigned?_eq_some_iff.mp h with h | ⟨ds, rfl, h⟩
      · obtain ⟨zeros, rfl⟩ := digits?_eq_some_iff.mp h
        exact spells_digits n zeros
      · obtain ⟨zeros, rfl⟩ := digits?_eq_some_iff.mp h
        exact .inr (.plus n zeros)
    · obtain ⟨zeros, rfl⟩ := digits?_eq_some_iff.mp h
      exact spells_minus n zeros
  · rintro (rfl | h)
    · cases z with
      | ofNat n => exact .inl ⟨n, rfl, unsigned?_eq_some_iff.mpr (.inl (digits?_eq_some_iff.mpr ⟨0, rfl⟩))⟩
      | negSucc n => exact .inr ⟨n + 1, _, rfl, rfl, digits?_eq_some_iff.mpr ⟨0, rfl⟩⟩
    · cases h with
      | plus n zeros =>
        exact .inl ⟨n, rfl, unsigned?_eq_some_iff.mpr (.inr ⟨_, rfl, digits?_eq_some_iff.mpr ⟨zeros, rfl⟩⟩)⟩
      | padded n zeros =>
        exact .inl ⟨n, rfl, unsigned?_eq_some_iff.mpr (.inl (digits?_eq_some_iff.mpr ⟨zeros + 1, rfl⟩))⟩
      | paddedMinus n zeros => exact .inr ⟨n, _, rfl, rfl, digits?_eq_some_iff.mpr ⟨zeros + 1, rfl⟩⟩
      | minusZero => exact .inr ⟨0, ['0'], rfl, rfl, digits?_eq_some_iff.mpr ⟨0, rfl⟩⟩

theorem signed?_ofInt (z : Int) : signed? (ofInt z) = some z := signed?_eq_some_iff.mpr (.inl rfl)

theorem ofInt_injective : Function.Injective ofInt := by
  intro a b h
  exact Option.some.inj ((signed?_ofInt a).symm.trans (h ▸ signed?_ofInt b))

theorem int32?_eq_some_iff {c : Int32} : int32? cs = some c ↔ signed? cs = some c.toInt := by
  rw [int32?, Option.bind_eq_some_iff]
  constructor
  · rintro ⟨z, hz, h⟩
    split at h
    · next hin =>
      cases h
      rw [hz, Int32.toInt_ofInt_of_le hin.1 (by omega)]
    · cases h
  · intro h
    refine ⟨c.toInt, h, ?_⟩
    rw [if_pos ⟨c.le_toInt, Int.le_of_lt_add_one c.toInt_lt⟩, Int32.ofInt_toInt]

theorem int32?_ofInt (c : Int32) : int32? (ofInt c.toInt) = some c :=
  int32?_eq_some_iff.mpr (signed?_ofInt c.toInt)

end Decimal

end RefStore
