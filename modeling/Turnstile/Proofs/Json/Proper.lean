import Turnstile.Json.Reader
import Turnstile.Proofs.Binary64.Rounding
import Turnstile.Proofs.Keyed

namespace Turnstile

namespace Binary64

theorem isRounded_of_mul {x y z : Binary64} (h : x.mul y = some z) : z.IsRounded :=
  isRounded_of_ofRatio (Nat.mul_pos x.ratio_pos y.ratio_pos) h

theorem isRounded_of_div {x y z : Binary64} (some_divisor : y.mantissa ≠ 0)
    (h : x.div y = some z) : z.IsRounded := by
  have divisor : 0 < y.ratio.1 := by
    rw [ratio]
    split
    · exact Nat.mul_pos (Nat.pos_of_ne_zero some_divisor) (Nat.pow_pos (by decide))
    · exact Nat.pos_of_ne_zero some_divisor
  exact isRounded_of_ofRatio (Nat.mul_pos x.ratio_pos divisor) h

end Binary64

namespace Json

theorem mantissa_powerOfTen {k : Nat} (h : k ≤ greatestPower) : (powerOfTen k).mantissa ≠ 0 := by
  have all : ∀ k < 309, (Binary64.ofNat false (Nat.pow 10 k)).mantissa ≠ 0 := by decide +kernel
  rw [powerOfTen]
  exact all k (Nat.lt_succ_of_le h)

theorem isRounded_of_divideBy {x y : Binary64} {last steps : Nat} (rounded : x.IsRounded)
    (fits : last ≤ greatestPower) (h : divideBy x last steps = some y) : y.IsRounded := by
  induction steps generalizing x with
  | zero => exact Binary64.isRounded_of_div (mantissa_powerOfTen fits) h
  | succ steps ih =>
    rw [divideBy] at h
    split at h
    · exact Option.some.inj h ▸ rounded
    · split at h
      · next z quotient =>
        exact ih (Binary64.isRounded_of_div (mantissa_powerOfTen (Nat.le_refl _)) quotient) h
      · cases h

theorem isRounded_of_scale {negative : Bool} {significand : Nat} {e : Int} {x : Binary64}
    (h : scale negative significand e = some x) : x.IsRounded := by
  have rounded := Binary64.isRounded_ofNat negative significand
  rw [scale] at h
  split at h
  · rw [scaleUp] at h
    split at h
    · exact Binary64.isRounded_of_mul h
    · split at h
      · exact Option.some.inj h ▸ rounded
      · cases h
  · rw [scaleDown] at h
    refine isRounded_of_divideBy rounded ?_ h
    simp only [greatestPower]
    omega

/-- An integer of 64 bits, with a sign or without, or a double in the one form of its number. -/
def Number.IsProper : Number → Prop
  | .integer i => -(signedBound : Int) ≤ i ∧ i < bound
  | .double x => x.IsRounded

instance : DecidablePred Number.IsProper
  | .integer i => inferInstanceAs (Decidable (-(Number.signedBound : Int) ≤ i ∧ i < Number.bound))
  | .double x => inferInstanceAs (Decidable x.IsRounded)

theorem Numeral.isProper_of_toNumber? {n : Numeral} {m : Number} (h : n.toNumber? = some m) :
    m.IsProper := by
  have double (h : n.toDouble?.map Number.double = some m) : m.IsProper := by
    obtain ⟨x, read, rfl⟩ := Option.map_eq_some_iff.mp h
    exact isRounded_of_scale read
  simp only [toNumber?] at h
  split at h
  · split at h
    · next natural =>
      obtain rfl := Option.some.inj h
      exact ⟨by omega, by exact_mod_cast natural.2⟩
    · split at h
      · next negative =>
        obtain rfl := Option.some.inj h
        exact ⟨by omega, by omega⟩
      · exact double h
  · exact double h

inductive Value.IsProper : Value → Prop
  | null : IsProper .null
  | bool (b : Bool) : IsProper (.bool b)
  | number {n : Number} (fits : n.IsProper) : IsProper (.number n)
  | string (s : String) : IsProper (.string s)
  | array {vs : List Value} (items : ∀ v ∈ vs, IsProper v) : IsProper (.array vs)
  | object {ms : List (String × Value)} (ordered : Keyed.Ordered ms)
      (members : ∀ m ∈ ms, IsProper m.2) : IsProper (.object ms)

mutual

theorem Tree.isProper_of_value? : ∀ {depth : Nat} {t : Tree} {v : Value},
    t.value? depth = some v → v.IsProper
  | _, .null, _, h => by
    rw [Tree.value?] at h
    exact Option.some.inj h ▸ .null
  | _, .bool b, _, h => by
    rw [Tree.value?] at h
    exact Option.some.inj h ▸ .bool b
  | _, .numeral n, _, h => by
    rw [Tree.value?] at h
    obtain ⟨m, read, rfl⟩ := Option.map_eq_some_iff.mp h
    exact .number (Numeral.isProper_of_toNumber? read)
  | _, .string ps, _, h => by
    rw [Tree.value?] at h
    obtain ⟨s, -, rfl⟩ := Option.map_eq_some_iff.mp h
    exact .string s
  | 0, .array items, _, h => by
    rw [Tree.value?] at h
    cases h
  | depth + 1, .array items, _, h => by
    rw [Tree.value?] at h
    obtain ⟨vs, read, rfl⟩ := Option.map_eq_some_iff.mp h
    exact .array (isProper_of_itemValues? read)
  | 0, .object members, _, h => by
    rw [Tree.value?] at h
    cases h
  | depth + 1, .object members, _, h => by
    rw [Tree.value?] at h
    obtain ⟨ms, read, rfl⟩ := Option.map_eq_some_iff.mp h
    exact .object (Keyed.ordered_ofList ms)
      fun m mem => isProper_of_memberValues? read m (Keyed.mem_of_mem_ofList mem)

theorem isProper_of_itemValues? : ∀ {depth : Nat} {ts : List Tree} {vs : List Value},
    itemValues? depth ts = some vs → ∀ v ∈ vs, v.IsProper
  | _, [], _, h => by
    rw [itemValues?] at h
    cases h
    simp
  | depth, t :: ts, _, h => by
    simp only [itemValues?, Option.bind_eq_bind, Option.bind_eq_some_iff] at h
    obtain ⟨v, read, vs, later, h⟩ := h
    cases h
    exact List.forall_mem_cons.mpr ⟨t.isProper_of_value? read, isProper_of_itemValues? later⟩

theorem isProper_of_memberValues? : ∀ {depth : Nat} {ts : List (List Piece × Tree)}
    {ms : List (String × Value)}, memberValues? depth ts = some ms → ∀ m ∈ ms, m.2.IsProper
  | _, [], _, h => by
    rw [memberValues?] at h
    cases h
    simp
  | depth, (k, t) :: ts, _, h => by
    simp only [memberValues?, Option.bind_eq_bind, Option.bind_eq_some_iff] at h
    obtain ⟨k, -, v, read, ms, later, h⟩ := h
    cases h
    exact List.forall_mem_cons.mpr ⟨t.isProper_of_value? read, isProper_of_memberValues? later⟩

end

/-- Whatever is read from a text is proper. -/
theorem Value.isProper_of_parse? {s : List UInt8} {v : Value} (h : Value.parse? s = some v) :
    v.IsProper := by
  obtain ⟨t, -, read⟩ := Option.bind_eq_some_iff.mp h
  exact Tree.isProper_of_value? read

end Json

end Turnstile
