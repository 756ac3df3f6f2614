import Mathlib.Tactic.LinearCombination
import Turnstile.Proofs.Binary64.Rounding

/-!
The shortest decimal of a double is read back as it. Reading looks at the number alone, and the
decimals that are tried end with the one that writes all digits, which is the double itself.
-/

namespace Turnstile

namespace Decimal

def value (d : Decimal) : ℚ := d.coefficient * 10 ^ d.exponent

theorem ratio_pos (d : Decimal) : 0 < d.ratio.2 := by
  unfold Decimal.ratio
  split
  · exact Nat.one_pos
  · exact Nat.pow_pos (by decide)

theorem ratio_div (d : Decimal) : (d.ratio.1 : ℚ) / d.ratio.2 = d.value := by
  rw [ratio, value]
  split
  · next upward =>
    rw [Nat.pow_eq, Nat.cast_one, div_one, Nat.cast_mul, Nat.cast_pow, ← zpow_natCast,
      Int.toNat_of_nonneg upward]
    rfl
  · next downward =>
    rw [Nat.pow_eq, Nat.cast_pow, ← zpow_natCast, Int.toNat_of_nonneg (by omega), zpow_neg,
      div_inv_eq_mul]
    rfl

theorem value_eq_zero_iff {d : Decimal} : d.value = 0 ↔ d.coefficient = 0 := by
  rw [value, mul_eq_zero, Nat.cast_eq_zero, or_iff_left (by positivity)]

/-- The place of the first digit says which powers of ten the number is below. -/
theorem digitCount_add_le_iff {d : Decimal} (some_digit : d.coefficient ≠ 0) (k : Int) :
    (digitCount d.coefficient : Int) + d.exponent ≤ k ↔ d.value < 10 ^ k := by
  have scale_pos : (0 : ℚ) < 10 ^ d.exponent := by positivity
  have moved : d.value < 10 ^ k ↔ (d.coefficient : ℚ) < 10 ^ (k - d.exponent) := by
    rw [value, zpow_sub₀ (by norm_num), lt_div_iff₀ scale_pos]
  rw [moved, digitCount, if_neg some_digit]
  by_cases room : 0 < k - d.exponent
  · obtain ⟨n, places⟩ := Int.eq_ofNat_of_zero_le room.le
    have count := Nat.length_toDigits_le_iff (b := 10) (n := d.coefficient) (k := n) (by decide)
      (by omega)
    rw [places, zpow_natCast]
    have cast : (d.coefficient : ℚ) < 10 ^ n ↔ d.coefficient < 10 ^ n := by
      exact_mod_cast Iff.rfl
    rw [cast, ← count]
    omega
  · have digits : 0 < (Nat.toDigits 10 d.coefficient).length :=
      List.length_pos_iff.mpr Nat.toDigits_ne_nil
    have small : (10 : ℚ) ^ (k - d.exponent) ≤ 1 :=
      zpow_le_one_of_nonpos₀ (by norm_num) (by omega)
    have one_le : (1 : ℚ) ≤ d.coefficient := by exact_mod_cast Nat.pos_of_ne_zero some_digit
    constructor
    · intro
      omega
    · intro below
      exact absurd (below.trans_le (small.trans one_le)) (lt_irrefl _)

/-- Decimals that are one number are read as one double. -/
theorem toBinary64_congr (negative : Bool) {d e : Decimal} (same : d.value = e.value) :
    d.toBinary64 negative = e.toBinary64 negative := by
  have zero : d.coefficient = 0 ↔ e.coefficient = 0 := by
    rw [← value_eq_zero_iff, same, value_eq_zero_iff]
  by_cases nothing : d.coefficient = 0
  · rw [toBinary64, toBinary64, if_pos (.inl nothing), if_pos (.inl (zero.mp nothing))]
  · have nothing' := mt zero.mpr nothing
    have top : (digitCount d.coefficient : Int) + d.exponent =
        digitCount e.coefficient + e.exponent := by
      apply Int.le_antisymm
      · rw [digitCount_add_le_iff nothing, same, ← digitCount_add_le_iff nothing']
      · rw [digitCount_add_le_iff nothing', ← same, ← digitCount_add_le_iff nothing]
    have rounded : Binary64.ofRatio negative d.ratio.1 d.ratio.2 =
        Binary64.ofRatio negative e.ratio.1 e.ratio.2 :=
      Binary64.ofRatio_congr negative d.ratio_pos e.ratio_pos (by rw [ratio_div, ratio_div, same])
    simp only [toBinary64, top, nothing, nothing', rounded]

theorem toBinary64_negative (negative : Bool) (d : Decimal) :
    d.toBinary64 negative =
      (d.toBinary64 false).map fun x => { x with negative := negative } := by
  have rounded := Binary64.ofRatio_negative negative d.ratio.1 d.ratio.2
  simp only [toBinary64, rounded]
  split
  · rfl
  · split <;> rfl

theorem value_dropZeros (d : Decimal) : d.dropZeros.value = d.value := by
  induction d using dropZeros.induct with
  | case1 d ends ih =>
    have tenfold : d.coefficient = 10 * (d.coefficient / 10) := by omega
    rw [dropZeros, dif_pos ends, ih, value, value, tenfold]
    simp only [Nat.mul_div_cancel_left _ (show 0 < 10 by decide)]
    rw [zpow_add₀ (by norm_num)]
    push_cast
    ring
  | case2 d ends => rw [dropZeros, dif_neg ends]

end Decimal

namespace Binary64

variable {x : Binary64}

theorem IsRounded.le_magnitude (rounded : x.IsRounded) (some_mantissa : x.mantissa ≠ 0) :
    (2 : ℚ) ^ leastExponent ≤ x.magnitude := by
  have one_le : (1 : ℚ) ≤ x.mantissa := by exact_mod_cast Nat.pos_of_ne_zero some_mantissa
  calc (2 : ℚ) ^ leastExponent ≤ 2 ^ x.exponent :=
        zpow_le_zpow_right₀ (by norm_num) rounded.least_le
    _ ≤ x.magnitude := le_mul_of_one_le_left (by positivity) one_le

theorem IsRounded.magnitude_lt (rounded : x.IsRounded) :
    x.magnitude < 2 ^ (greatestExponent + 53) := by
  have few : (x.mantissa : ℚ) < 2 ^ (53 : ℤ) := by exact_mod_cast rounded.bounded
  calc x.magnitude < 2 ^ (53 : ℤ) * 2 ^ x.exponent :=
        mul_lt_mul_of_pos_right few (by positivity)
    _ ≤ 2 ^ (53 : ℤ) * 2 ^ greatestExponent :=
        mul_le_mul_of_nonneg_left (zpow_le_zpow_right₀ (by norm_num) rounded.le_greatest)
          (by positivity)
    _ = 2 ^ (greatestExponent + 53) := by rw [← zpow_add₀ (by norm_num), add_comm]

theorem zpow_neg_le_zpow_neg {k n : Nat} (h : Nat.pow 2 k ≤ Nat.pow 10 n) :
    (10 : ℚ) ^ (-(n : ℤ)) ≤ 2 ^ (-(k : ℤ)) := by
  rw [zpow_neg, zpow_neg, zpow_natCast, zpow_natCast]
  apply inv_anti₀ (by positivity)
  exact_mod_cast h

theorem zpow_le_zpow {k n : Nat} (h : Nat.pow 2 k ≤ Nat.pow 10 n) :
    (2 : ℚ) ^ (k : ℤ) ≤ 10 ^ (n : ℤ) := by
  rw [zpow_natCast, zpow_natCast]
  exact_mod_cast h

/-- No double is so small that its decimals are taken for zero. -/
theorem least_above : (10 : ℚ) ^ (-331 : ℤ) ≤ 2 ^ leastExponent :=
  zpow_neg_le_zpow_neg (k := 1074) (n := 331) (by decide +kernel)

/-- No double is so large that its decimals are refused. -/
theorem greatest_below : (2 : ℚ) ^ (greatestExponent + 53) ≤ 10 ^ (310 : ℤ) :=
  zpow_le_zpow (k := 1024) (n := 310) (by decide +kernel)

/-- A decimal that is a double's magnitude is read as it. -/
theorem toBinary64_of_isRounded (rounded : x.IsRounded) (negative : Bool) {d : Decimal}
    (same : d.value = x.magnitude) :
    d.toBinary64 negative = some { x with negative := negative } := by
  by_cases nothing : d.coefficient = 0
  · have zero : x.mantissa = 0 := by
      rw [← magnitude_eq_zero_iff, ← same, Decimal.value_eq_zero_iff, nothing]
    have least := rounded.normal (by rw [zero]; exact Nat.pow_pos (by decide))
    rw [Decimal.toBinary64, if_pos (.inl nothing), Binary64.zero, ← zero, ← least]
  · have some_mantissa : x.mantissa ≠ 0 := by
      rw [Ne, ← magnitude_eq_zero_iff, ← same, Decimal.value_eq_zero_iff]
      exact nothing
    have low : ¬(Decimal.digitCount d.coefficient : Int) + d.exponent < -330 := by
      rw [show ((-330 : Int)) = -331 + 1 by rfl, Int.lt_add_one_iff,
        Decimal.digitCount_add_le_iff nothing, same, not_lt]
      refine least_above.trans (rounded.le_magnitude some_mantissa)
    have high : ¬310 < (Decimal.digitCount d.coefficient : Int) + d.exponent := by
      rw [not_lt, Decimal.digitCount_add_le_iff nothing, same]
      exact rounded.magnitude_lt.trans_le greatest_below
    simp only [Decimal.toBinary64, nothing, low, high, or_self, if_false]
    exact ofRatio_of_isRounded rounded negative d.ratio_pos (d.ratio_div.trans same)

/-- What a decimal is read as is in the one form of its number. -/
theorem isRounded_of_toBinary64 {negative : Bool} {d : Decimal} {x : Binary64}
    (h : d.toBinary64 negative = some x) : x.IsRounded := by
  rw [Decimal.toBinary64] at h
  split at h
  · cases h
    exact isRounded_zero negative
  · split at h
    · cases h
    · exact isRounded_of_ofRatio d.ratio_pos h

theorem value_exactDecimal (x : Binary64) : x.exactDecimal.value = x.magnitude := by
  rw [exactDecimal, magnitude]
  split
  · next upward =>
    rw [Decimal.value, Nat.pow_eq, Nat.cast_mul, Nat.cast_pow, ← zpow_natCast,
      Int.toNat_of_nonneg upward, zpow_zero, mul_one]
    rfl
  · next downward =>
    have ten : (10 : ℚ) ^ x.exponent = 2 ^ x.exponent * 5 ^ x.exponent := by
      rw [← mul_zpow]
      norm_num
    rw [Decimal.value, Nat.pow_eq, Nat.cast_mul, Nat.cast_pow, ← zpow_natCast,
      Int.toNat_of_nonneg (by omega), ten]
    have cancel : (5 : ℚ) ^ (-x.exponent) * 5 ^ x.exponent = 1 := by
      rw [← zpow_add₀ (by norm_num), neg_add_cancel, zpow_zero]
    push_cast
    linear_combination (x.mantissa : ℚ) * 2 ^ x.exponent * cancel

theorem toBinary64_of_readBack {d : Decimal} (h : x.ReadBack d) :
    d.toBinary64 x.negative = some x := by
  rw [ReadBack] at h
  rw [Decimal.toBinary64_negative, h]
  rfl

theorem readBack_of_tried {c d found : Decimal}
    (h : (if x.ReadBack c then some c else if x.ReadBack d then some d else none) = some found) :
    x.ReadBack found := by
  split at h
  · next read => exact Option.some.inj h ▸ read
  · split at h
    · next read => exact Option.some.inj h ▸ read
    · cases h

theorem readBack_of_onGrid? {e : Int} {d : Decimal} (h : x.onGrid? e = some d) : x.ReadBack d := by
  simp only [onGrid?] at h
  exact readBack_of_tried h

theorem readBack_shortestFrom (rounded : x.IsRounded) (tries digits : Nat) :
    x.ReadBack (x.shortestFrom tries digits) := by
  induction tries generalizing digits with
  | zero => exact toBinary64_of_isRounded rounded false x.value_exactDecimal
  | succ tries ih =>
    rw [shortestFrom]
    split
    · next d found => exact readBack_of_onGrid? found
    · exact ih (digits + 1)

/-- The shortest decimal is read back, so no other magnitude has it. -/
theorem readBack_shortest (rounded : x.IsRounded) : x.ReadBack x.shortest := by
  rw [shortest]
  split
  · next zero =>
    refine toBinary64_of_isRounded rounded false ?_
    rw [magnitude_eq_zero_iff.mpr (beq_iff_eq.mp zero), Decimal.value_eq_zero_iff]
  · rw [ReadBack, Decimal.toBinary64_congr false (Decimal.value_dropZeros _)]
    exact readBack_shortestFrom rounded 17 1

end Binary64

end Turnstile
