import Mathlib.Algebra.Order.Field.Power
import Mathlib.Data.Int.Log
import Mathlib.Data.Nat.Cast.Field
import Mathlib.Data.Rat.Floor
import Mathlib.Tactic.Linarith
import Mathlib.Tactic.Positivity
import Mathlib.Tactic.Ring
import Turnstile.Binary64.Decimal

namespace Turnstile

namespace Binary64

def magnitude (x : Binary64) : ℚ := x.mantissa * 2 ^ x.exponent

def value (x : Binary64) : ℚ := if x.negative then -x.magnitude else x.magnitude

/-- The one form of a number: as many of the 53 bits of the mantissa as the exponent leaves. -/
structure IsRounded (x : Binary64) : Prop where
  bounded : x.mantissa < 2 ^ 53
  least_le : leastExponent ≤ x.exponent
  le_greatest : x.exponent ≤ greatestExponent
  normal : x.mantissa < 2 ^ 52 → x.exponent = leastExponent

instance (x : Binary64) : Decidable x.IsRounded :=
  decidable_of_iff (x.mantissa < 2 ^ 53 ∧ leastExponent ≤ x.exponent ∧
      x.exponent ≤ greatestExponent ∧ (x.mantissa < 2 ^ 52 → x.exponent = leastExponent))
    ⟨fun ⟨bounded, least, greatest, normal⟩ => ⟨bounded, least, greatest, normal⟩,
      fun rounded => ⟨rounded.bounded, rounded.least_le, rounded.le_greatest, rounded.normal⟩⟩

theorem magnitude_nonneg (x : Binary64) : 0 ≤ x.magnitude := by
  rw [magnitude]
  positivity

theorem magnitude_eq_zero_iff {x : Binary64} : x.magnitude = 0 ↔ x.mantissa = 0 := by
  rw [magnitude, mul_eq_zero, Nat.cast_eq_zero, or_iff_left (by positivity)]

theorem ratio_pos (x : Binary64) : 0 < x.ratio.2 := by
  rw [ratio]
  split
  · exact Nat.one_pos
  · exact Nat.pow_pos (by decide)

theorem ratio_div (x : Binary64) : (x.ratio.1 : ℚ) / x.ratio.2 = x.magnitude := by
  rw [ratio, magnitude]
  split
  · next upward =>
    rw [Nat.pow_eq, Nat.cast_one, div_one, Nat.cast_mul, Nat.cast_pow, ← zpow_natCast,
      Int.toNat_of_nonneg upward]
    rfl
  · next downward =>
    rw [Nat.pow_eq, Nat.cast_pow, ← zpow_natCast, Int.toNat_of_nonneg (by omega), zpow_neg,
      div_inv_eq_mul]
    rfl

theorem roundDiv_le (num den : Nat) : roundDiv num den ≤ num / den + 1 := by
  simp only [roundDiv]
  split
  · omega
  · split <;> omega

theorem le_roundDiv (num den : Nat) : num / den ≤ roundDiv num den := by
  simp only [roundDiv]
  split
  · omega
  · split <;> omega

theorem roundDiv_one (n : Nat) : roundDiv n 1 = n := by
  simp [roundDiv, Nat.mod_one]

theorem roundDiv_mul (num den : Nat) {k : Nat} (pos : 0 < k) :
    roundDiv (k * num) (k * den) = roundDiv num den := by
  have below (a b : Nat) : 2 * (k * a) < k * b ↔ 2 * a < b := by
    rw [Nat.mul_left_comm, Nat.mul_lt_mul_left pos]
  have above (a b : Nat) : k * a < 2 * (k * b) ↔ a < 2 * b := by
    rw [Nat.mul_left_comm, Nat.mul_lt_mul_left pos]
  simp only [roundDiv, Nat.mul_div_mul_left _ _ pos, Nat.mul_mod_mul_left, below, above]

/-- What is rounded is the quotient, whatever fraction writes it. -/
theorem roundDiv_congr {num den num' den' : Nat} (pos : 0 < den) (pos' : 0 < den')
    (same : (num : ℚ) / den = num' / den') : roundDiv num den = roundDiv num' den' := by
  have cross : num * den' = num' * den := by
    rw [div_eq_div_iff (by positivity) (by positivity)] at same
    exact_mod_cast same
  calc roundDiv num den = roundDiv (den' * num) (den' * den) := (roundDiv_mul _ _ pos').symm
    _ = roundDiv (den * num') (den * den') := by
        rw [Nat.mul_comm den' num, cross, Nat.mul_comm num', Nat.mul_comm den' den]
    _ = roundDiv num' den' := roundDiv_mul _ _ pos

section Quotient

variable {num den : Nat}

theorem unscale_pos (pos : 0 < den) (e : Int) : 0 < (unscale num den e).2 := by
  rw [unscale]
  split
  · exact Nat.mul_pos pos (Nat.pow_pos (by decide))
  · exact pos

theorem unscale_div (num den : Nat) (e : Int) :
    ((unscale num den e).1 : ℚ) / (unscale num den e).2 = num / den / 2 ^ e := by
  rw [unscale]
  split
  · next upward =>
    rw [Nat.pow_eq, Nat.cast_mul, Nat.cast_pow, ← zpow_natCast, Int.toNat_of_nonneg upward,
      div_div]
    rfl
  · next downward =>
    rw [Nat.pow_eq, Nat.cast_mul, Nat.cast_pow, ← zpow_natCast, Int.toNat_of_nonneg (by omega),
      zpow_neg, div_eq_mul_inv _ ((2 : ℚ) ^ e), mul_div_right_comm]
    rfl

/-- What a scaled quotient is below says what the quotient itself is below. -/
theorem unscale_lt_iff (pos : 0 < den) (e : Int) (b : Nat) :
    (unscale num den e).1 < (unscale num den e).2 * b ↔ (num : ℚ) / den < b * 2 ^ e := by
  have scaled_pos : (0 : ℚ) < (unscale num den e).2 := by exact_mod_cast unscale_pos pos e
  rw [← div_lt_iff₀ (by positivity), ← unscale_div, div_lt_iff₀ scaled_pos, mul_comm (b : ℚ)]
  exact_mod_cast Iff.rfl

/-- The exponent leaves 53 bits of the quotient for the mantissa, unless it is the least one. -/
theorem exponentFor_eq (numPos : 0 < num) (pos : 0 < den) :
    exponentFor num den = max (Int.log 2 ((num : ℚ) / den) - 52) leastExponent := by
  have den_pos : (0 : ℚ) < den := by exact_mod_cast pos
  have quotient_pos : (0 : ℚ) < (num : ℚ) / den := by
    have : (0 : ℚ) < num := by exact_mod_cast numPos
    positivity
  set guess : Int := (num.log2 : Int) - (den.log2 : Int) - 52 with guess_eq
  have upper : (num : ℚ) / den < 2 ^ (guess + 53) := by
    have above : (num : ℚ) < 2 ^ (num.log2 + 1) := by exact_mod_cast Nat.lt_log2_self
    have below : (2 : ℚ) ^ den.log2 ≤ den := by exact_mod_cast Nat.log2_self_le (by omega)
    calc (num : ℚ) / den < 2 ^ (num.log2 + 1) / 2 ^ den.log2 :=
          div_lt_div₀ above below (by positivity) (by positivity)
      _ = 2 ^ (guess + 53) := by
          rw [guess_eq, div_eq_iff (by positivity), ← zpow_natCast, ← zpow_natCast,
            ← zpow_add₀ (by norm_num)]
          congr 1
          push_cast
          omega
  have lower : (2 : ℚ) ^ (guess + 51) ≤ num / den := by
    have above : (den : ℚ) < 2 ^ (den.log2 + 1) := by exact_mod_cast Nat.lt_log2_self
    have below : (2 : ℚ) ^ num.log2 ≤ num := by exact_mod_cast Nat.log2_self_le (by omega)
    calc (2 : ℚ) ^ (guess + 51) = 2 ^ num.log2 / 2 ^ (den.log2 + 1) := by
          rw [guess_eq, eq_div_iff (by positivity), ← zpow_natCast, ← zpow_natCast,
            ← zpow_add₀ (by norm_num)]
          congr 1
          push_cast
          omega
      _ ≤ num / den := div_le_div₀ (by positivity) below den_pos above.le
  clear_value guess
  have upper_log := (Int.lt_zpow_iff_log_lt (b := 2) (by decide) quotient_pos).mp upper
  have lower_log := (Int.zpow_le_iff_le_log (b := 2) (by decide) quotient_pos).mp lower
  have middle : (unscale num den guess).1 < (unscale num den guess).2 * leastNormal ↔
      Int.log 2 ((num : ℚ) / den) < guess + 52 := by
    rw [unscale_lt_iff pos, ← Int.lt_zpow_iff_log_lt (b := 2) (by decide) quotient_pos,
      zpow_add₀ (by norm_num), mul_comm]
    norm_num [leastNormal, Nat.pow_eq]
  simp only [exponentFor, ← guess_eq, middle]
  split <;> congr 1 <;> omega

/-- A rounded mantissa and its exponent as a double. A mantissa that was rounded up to 54 bits takes
the next exponent. -/
def settle (negative : Bool) (mantissa : Nat) (e : Int) : Option Binary64 :=
  let x : Binary64 :=
    if mantissa = 2 * leastNormal then ⟨negative, leastNormal, e + 1⟩ else ⟨negative, mantissa, e⟩
  if greatestExponent < x.exponent then none else some x

theorem settle_unscale (negative : Bool) (num den : Nat) (e : Int) :
    settle negative (roundDiv (unscale num den e).1 (unscale num den e).2) e =
      (let (n, d) := unscale num den e
      let m := roundDiv n d
      let x : Binary64 :=
        if m = 2 * leastNormal then ⟨negative, leastNormal, e + 1⟩ else ⟨negative, m, e⟩
      if greatestExponent < x.exponent then none else some x) := by
  generalize unscale num den e = scaled
  cases scaled
  dsimp only
  rw [settle]

theorem ofRatio_eq_settle (negative : Bool) (some_num : num ≠ 0) :
    ofRatio negative num den =
      settle negative (roundDiv (unscale num den (exponentFor num den)).1
        (unscale num den (exponentFor num den)).2) (exponentFor num den) := by
  rw [ofRatio, if_neg some_num]
  exact (settle_unscale negative num den (exponentFor num den)).symm

/-- Rounding does not look at the sign. -/
theorem ofRatio_negative (negative : Bool) (num den : Nat) :
    ofRatio negative num den =
      (ofRatio false num den).map fun x => { x with negative := negative } := by
  by_cases nothing : num = 0
  · rw [ofRatio, ofRatio, if_pos nothing, if_pos nothing]
    rfl
  · rw [ofRatio_eq_settle _ nothing, ofRatio_eq_settle _ nothing]
    generalize exponentFor num den = e
    generalize roundDiv (unscale num den e).1 (unscale num den e).2 = m
    rw [settle, settle]
    by_cases carry : m = 2 * leastNormal
    · rw [if_pos carry, if_pos carry]
      split <;> rfl
    · rw [if_neg carry, if_neg carry]
      split <;> rfl

/-- What is rounded is the quotient, whatever fraction writes it. -/
theorem ofRatio_congr (negative : Bool) {num' den' : Nat} (pos : 0 < den) (pos' : 0 < den')
    (same : (num : ℚ) / den = num' / den') :
    ofRatio negative num den = ofRatio negative num' den' := by
  have cross : num * den' = num' * den := by
    rw [div_eq_div_iff (by positivity) (by positivity)] at same
    exact_mod_cast same
  by_cases nothing : num = 0
  · have nothing' : num' = 0 := by
      rw [nothing, Nat.zero_mul] at cross
      exact (Nat.mul_eq_zero.mp cross.symm).resolve_right (by omega)
    rw [nothing, nothing', ofRatio, ofRatio]
    simp
  · have nothing' : num' ≠ 0 := by
      rintro rfl
      rw [Nat.zero_mul] at cross
      exact nothing ((Nat.mul_eq_zero.mp cross).resolve_right (by omega))
    have exponent : exponentFor num den = exponentFor num' den' := by
      rw [exponentFor_eq (by omega) pos, exponentFor_eq (by omega) pos', same]
    have mantissa (e : Int) : roundDiv (unscale num den e).1 (unscale num den e).2 =
        roundDiv (unscale num' den' e).1 (unscale num' den' e).2 :=
      roundDiv_congr (unscale_pos pos _) (unscale_pos pos' _)
        (by rw [unscale_div, unscale_div, same])
    rw [ofRatio_eq_settle _ nothing, ofRatio_eq_settle _ nothing', exponent, mantissa]

theorem exponentFor_of_isRounded {x : Binary64} (rounded : x.IsRounded) (numPos : 0 < num)
    (pos : 0 < den) (same : (num : ℚ) / den = x.magnitude) : exponentFor num den = x.exponent := by
  have quotient_pos : (0 : ℚ) < (num : ℚ) / den := by positivity
  have below {n : Nat} (few : x.mantissa < 2 ^ n) :
      Int.log 2 ((num : ℚ) / den) < x.exponent + n := by
    have cast : (x.mantissa : ℚ) < 2 ^ (n : ℤ) := by exact_mod_cast few
    rw [← Int.lt_zpow_iff_log_lt (b := 2) (by decide) quotient_pos, same, magnitude]
    push_cast
    rw [zpow_add₀ (by norm_num), mul_comm]
    gcongr
  have least := rounded.least_le
  rw [exponentFor_eq numPos pos]
  by_cases small : x.mantissa < 2 ^ 52
  · have log := below small
    rw [rounded.normal small] at log ⊢
    push_cast at log
    omega
  · have log := below rounded.bounded
    have log' : x.exponent + 52 ≤ Int.log 2 ((num : ℚ) / den) := by
      have cast : (2 : ℚ) ^ (52 : ℤ) ≤ x.mantissa := by exact_mod_cast Nat.not_lt.mp small
      rw [← Int.zpow_le_iff_le_log (b := 2) (by decide) quotient_pos, same, magnitude]
      push_cast
      rw [zpow_add₀ (by norm_num), mul_comm]
      gcongr
    push_cast at log
    omega

/-- A number in its one form is rounded to itself. -/
theorem ofRatio_of_isRounded {x : Binary64} (rounded : x.IsRounded) (negative : Bool)
    (pos : 0 < den) (same : (num : ℚ) / den = x.magnitude) :
    ofRatio negative num den = some { x with negative := negative } := by
  by_cases nothing : x.mantissa = 0
  · have no_num : num = 0 := by
      rw [magnitude, nothing, Nat.cast_zero, zero_mul, div_eq_zero_iff, Nat.cast_eq_zero] at same
      exact same.resolve_right (by exact_mod_cast pos.ne')
    have least := rounded.normal (by rw [nothing]; exact Nat.pow_pos (by decide))
    rw [ofRatio, if_pos no_num, zero, ← least, ← nothing]
  · have some_num : num ≠ 0 := by
      rintro rfl
      rw [Nat.cast_zero, zero_div] at same
      exact nothing (magnitude_eq_zero_iff.mp same.symm)
    have exponent := exponentFor_of_isRounded rounded (Nat.pos_of_ne_zero some_num) pos same
    have mantissa : roundDiv (unscale num den x.exponent).1 (unscale num den x.exponent).2 =
        x.mantissa := by
      rw [← roundDiv_one x.mantissa]
      apply roundDiv_congr (unscale_pos pos _) Nat.one_pos
      rw [unscale_div, same, magnitude, mul_div_cancel_right₀ _ (by positivity), Nat.cast_one,
        div_one]
    have few : x.mantissa ≠ 2 * leastNormal := by
      have := rounded.bounded
      simp only [leastNormal, Nat.pow_eq]
      omega
    rw [ofRatio_eq_settle _ some_num, exponent, mantissa, settle, if_neg few,
      if_neg (not_lt.mpr rounded.le_greatest)]

theorem isRounded_zero (negative : Bool) : (zero negative).IsRounded :=
  ⟨Nat.pow_pos (by decide), Int.le_refl _, (by decide : leastExponent ≤ greatestExponent),
    fun _ => rfl⟩

/-- The mantissa has 53 bits or fewer before it is rounded. -/
theorem unscale_exponentFor_lt (numPos : 0 < num) (pos : 0 < den) :
    (unscale num den (exponentFor num den)).1 <
      (unscale num den (exponentFor num den)).2 * 2 ^ 53 := by
  have quotient_pos : (0 : ℚ) < (num : ℚ) / den := by positivity
  have exponent := exponentFor_eq numPos pos
  have log : Int.log 2 ((num : ℚ) / den) < 53 + exponentFor num den := by omega
  rw [← Int.lt_zpow_iff_log_lt (b := 2) (by decide) quotient_pos, zpow_add₀ (by norm_num)] at log
  rw [unscale_lt_iff pos]
  exact_mod_cast log

/-- The mantissa has 53 bits, unless the exponent is the least one. -/
theorem le_unscale_exponentFor (numPos : 0 < num) (pos : 0 < den)
    (normal : exponentFor num den ≠ leastExponent) :
    (unscale num den (exponentFor num den)).2 * 2 ^ 52 ≤
      (unscale num den (exponentFor num den)).1 := by
  have quotient_pos : (0 : ℚ) < (num : ℚ) / den := by positivity
  have exponent := exponentFor_eq numPos pos
  have log : 52 + exponentFor num den ≤ Int.log 2 ((num : ℚ) / den) := by omega
  rw [← Int.zpow_le_iff_le_log (b := 2) (by decide) quotient_pos, zpow_add₀ (by norm_num)] at log
  rw [← Nat.not_lt, unscale_lt_iff pos, not_lt]
  exact_mod_cast log

/-- What rounding gives is in the one form of its number. -/
theorem isRounded_of_ofRatio {negative : Bool} {x : Binary64} (pos : 0 < den)
    (h : ofRatio negative num den = some x) : x.IsRounded := by
  by_cases nothing : num = 0
  · rw [ofRatio, if_pos nothing] at h
    obtain rfl := Option.some.inj h
    exact isRounded_zero negative
  · have numPos := Nat.pos_of_ne_zero nothing
    have least : leastExponent ≤ exponentFor num den :=
      exponentFor_eq numPos pos ▸ le_max_right _ _
    have below := Nat.div_lt_of_lt_mul (unscale_exponentFor_lt numPos pos)
    have above := le_unscale_exponentFor numPos pos
    rw [ofRatio_eq_settle _ nothing] at h
    generalize exponentFor num den = e at least below above h
    rw [Nat.mul_comm, ← Nat.le_div_iff_mul_le (unscale_pos pos e)] at above
    have up := roundDiv_le (unscale num den e).1 (unscale num den e).2
    have down := le_roundDiv (unscale num den e).1 (unscale num den e).2
    generalize roundDiv (unscale num den e).1 (unscale num den e).2 = m at up down h
    rw [settle] at h
    by_cases carry : m = 2 * leastNormal
    · rw [if_pos carry, Option.ite_none_left_eq_some] at h
      obtain ⟨le_greatest, h⟩ := h
      obtain rfl := Option.some.inj h
      exact ⟨by simp [leastNormal, Nat.pow_eq], by simp only; omega, not_lt.mp le_greatest,
        fun small => absurd small (by simp [leastNormal, Nat.pow_eq])⟩
    · rw [if_neg carry, Option.ite_none_left_eq_some] at h
      obtain ⟨le_greatest, h⟩ := h
      obtain rfl := Option.some.inj h
      simp only [leastNormal, Nat.pow_eq] at carry
      refine ⟨by simp only; omega, least, not_lt.mp le_greatest, fun small => ?_⟩
      by_contra normal
      have bits := above normal
      simp only at small
      omega

end Quotient

theorem isRounded_ofNat (negative : Bool) (n : Nat) : (ofNat negative n).IsRounded := by
  rw [ofNat]
  cases h : ofRatio negative n 1 with
  | none => exact isRounded_zero negative
  | some x => exact isRounded_of_ofRatio Nat.one_pos h

section Values

variable {x y : Binary64}

theorem abs_value (x : Binary64) : |x.value| = x.magnitude := by
  rw [value]
  split
  · rw [abs_neg, abs_of_nonneg x.magnitude_nonneg]
  · rw [abs_of_nonneg x.magnitude_nonneg]

theorem absBelow_iff {bound : Nat} : x.absBelow bound = true ↔ |x.value| < bound := by
  have pos : (0 : ℚ) < x.ratio.2 := by exact_mod_cast x.ratio_pos
  rw [abs_value, ← ratio_div, div_lt_iff₀ pos, absBelow, decide_eq_true_eq]
  exact_mod_cast Iff.rfl

theorem value_of_isIntegral (integral : x.isIntegral = true) : x.value = x.truncate := by
  have pos : (x.ratio.2 : ℚ) ≠ 0 := by exact_mod_cast x.ratio_pos.ne'
  have divides : x.ratio.2 ∣ x.ratio.1 := Nat.dvd_of_mod_eq_zero (beq_iff_eq.mp integral)
  have whole : x.magnitude = (x.ratio.1 / x.ratio.2 : Nat) := by
    rw [← ratio_div, Nat.cast_div divides pos]
  simp only [value, truncate, whole]
  split
  · rw [Int.cast_neg, Int.cast_natCast]
  · rw [Int.cast_natCast]

theorem isIntegral_of_value {i : Int} (h : x.value = i) : x.isIntegral = true := by
  have pos : (x.ratio.2 : ℚ) ≠ 0 := by exact_mod_cast x.ratio_pos.ne'
  have whole : (x.ratio.1 : ℚ) / x.ratio.2 = (i.natAbs : Nat) := by
    rw [ratio_div, ← abs_value, h, Nat.cast_natAbs, Int.cast_abs]
  rw [div_eq_iff pos] at whole
  have product : x.ratio.1 = i.natAbs * x.ratio.2 := by exact_mod_cast whole
  rw [isIntegral, beq_iff_eq, product, Nat.mul_mod_left]

/-- A number other than zero has one form. -/
theorem eq_of_value_eq (hx : x.IsRounded) (hy : y.IsRounded) (some_value : x.value ≠ 0)
    (same : x.value = y.value) : x = y := by
  have magnitude : y.magnitude = x.magnitude := by rw [← abs_value, ← same, abs_value]
  have rounded := ofRatio_of_isRounded hx y.negative y.ratio_pos (y.ratio_div.trans magnitude)
  rw [ofRatio_of_isRounded hy y.negative y.ratio_pos y.ratio_div] at rounded
  have form : y = { x with negative := y.negative } := Option.some.inj rounded
  have sign : x.negative = y.negative := by
    have pos : x.magnitude ≠ 0 := by
      rwa [← abs_value, Ne, abs_eq_zero]
    rw [value, value, magnitude] at same
    cases hx : x.negative <;> cases hy : y.negative
    · rfl
    · simp only [hx, hy, if_true, Bool.false_eq_true, if_false] at same
      exact absurd (by linarith) pos
    · simp only [hx, hy, if_true, Bool.false_eq_true, if_false] at same
      exact absurd (by linarith) pos
    · rfl
  rw [form, ← sign]

end Values

end Binary64

end Turnstile
