import Turnstile.Proofs.Binary64.Shortest
import Turnstile.Settings.Environment

namespace Turnstile

namespace Binary64

/-- The mantissa has 53 bits or fewer. -/
def IsBounded (x : Binary64) : Prop := x.mantissa < Nat.pow 2 53

theorem IsRounded.isBounded {x : Binary64} (rounded : x.IsRounded) : x.IsBounded := rounded.bounded

theorem isBounded_ofNat (negative : Bool) (n : Nat) : (ofNat negative n).IsBounded :=
  (isRounded_ofNat negative n).isBounded

theorem isBounded_of_parse? {t : String} {x : Binary64} (h : parse? t = some x) : x.IsBounded := by
  simp only [parse?, Option.bind_eq_bind, Option.bind_eq_some_iff] at h
  obtain ⟨_, -, h⟩ := h
  exact (isRounded_of_toBinary64 h).isBounded

/-- A number of seconds ends on the clock, when this has just started, unless it is 2 ^ 63 or more.
All such numbers stand for the same duration or more. -/
theorem toDuration_lt_horizon_iff {x : Binary64} (bounded : x.IsBounded) :
    x.toDuration < Clock.horizon ↔ x.negative = true ∨ x.absBelow (Nat.pow 2 63) = true := by
  have second_pos : 0 < Clock.second := by decide
  have longest : Clock.horizon ≤ Clock.maxDuration := by decide +kernel
  rw [toDuration]
  cases sign : x.negative with
  | true => simpa [Clock.horizon, Nat.pow_eq] using second_pos
  | false =>
    have clamped (n : Nat) : min n Clock.maxDuration < Clock.horizon ↔ n < Clock.horizon := by
      omega
    simp only [Bool.false_eq_true, if_false, false_or, clamped, absBelow, decide_eq_true_eq]
    rw [ratio]
    split
    · -- An integer number of seconds is not rounded.
      simp only [roundDiv_one, Clock.horizon, Nat.mul_one, Nat.mul_lt_mul_right second_pos]
    · -- A number with a fraction is too small for either side to fail.
      have few : x.mantissa * Clock.second / Nat.pow 2 (-x.exponent).toNat + 1 <
          Clock.horizon := by
        have whole := Nat.div_le_self (x.mantissa * Clock.second) (Nat.pow 2 (-x.exponent).toNat)
        simp only [IsBounded, Clock.horizon, Clock.second, Nat.pow_eq] at bounded whole ⊢
        omega
      have positive : 0 < Nat.pow 2 (-x.exponent).toNat := Nat.pow_pos (by decide)
      constructor
      · intro _
        calc x.mantissa < Nat.pow 2 53 := bounded
          _ ≤ Nat.pow 2 63 := by decide +kernel
          _ ≤ Nat.pow 2 63 * Nat.pow 2 (-x.exponent).toNat := Nat.le_mul_of_pos_right _ positive
      · intro _
        exact (roundDiv_le _ _).trans_lt few

end Binary64

end Turnstile
