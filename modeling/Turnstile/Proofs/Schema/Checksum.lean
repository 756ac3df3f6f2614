import Mathlib.RingTheory.AdjoinRoot
import Mathlib.Algebra.Field.ZMod
import Turnstile.Proofs.Bits
import Turnstile.Schema.Address

/-!
The checksum of an address as the remainder of a division. A bit string is the polynomial over the
field of two elements whose coefficients the bits are, the highest one first; exclusive or adds two
of them, and one step of the checksum multiplies by `x` modulo the divisor. The main result is
`wordPolynomial_checksum`, with what the coefficients of messages and words are; from it the
checksum is linear.
-/

namespace Turnstile

open Polynomial

namespace Bits

/-- The polynomial over the field of two elements whose coefficients the bits are, the highest one
first. -/
noncomputable def toPolynomial (bs : List Bool) : (ZMod 2)[X] :=
  bs.foldl (fun p b => p * X + C (b.toNat : ZMod 2)) 0

theorem toPolynomial_snoc (bs : List Bool) (b : Bool) :
    toPolynomial (bs ++ [b]) = toPolynomial bs * X + C (b.toNat : ZMod 2) := by
  rw [toPolynomial, List.foldl_append]
  rfl

theorem toPolynomial_append (as bs : List Bool) :
    toPolynomial (as ++ bs) = toPolynomial as * X ^ bs.length + toPolynomial bs := by
  induction bs using List.reverseRecOn with
  | nil => simp [toPolynomial]
  | append_singleton bs b ih =>
    rw [← List.append_assoc, toPolynomial_snoc, ih, toPolynomial_snoc, List.length_append,
      List.length_singleton, pow_succ]
    ring

theorem toPolynomial_cons (b : Bool) (bs : List Bool) :
    toPolynomial (b :: bs) = C (b.toNat : ZMod 2) * X ^ bs.length + toPolynomial bs := by
  rw [← List.singleton_append, toPolynomial_append]
  simp [toPolynomial]

theorem toPolynomial_replicate_false (n : Nat) :
    toPolynomial (List.replicate n false) = 0 := by
  induction n with
  | zero => rfl
  | succ n ih => simp [List.replicate_succ, toPolynomial_cons, ih]

/-- The last bit is the constant coefficient. -/
theorem coeff_toPolynomial (bs : List Bool) (i : Nat) :
    (toPolynomial bs).coeff i = ((bs.reverse.getD i false).toNat : ZMod 2) := by
  induction bs using List.reverseRecOn generalizing i with
  | nil => simp [toPolynomial]
  | append_singleton bs b ih =>
    rw [toPolynomial_snoc, List.reverse_append]
    cases i with
    | zero => simp
    | succ i => simpa using ih i

theorem coeff_toPolynomial_ofNat (width n i : Nat) :
    (toPolynomial (ofNat width n)).coeff i =
      ((decide (i < width) && n.testBit i).toNat : ZMod 2) := by
  rw [coeff_toPolynomial, getD_reverse_ofNat]

theorem degree_toPolynomial_lt (bs : List Bool) : (toPolynomial bs).degree < bs.length := by
  induction bs with
  | nil => exact degree_zero.trans_lt (WithBot.bot_lt_coe 0)
  | cons b bs ih =>
    have longer : ((bs.length : Nat) : WithBot Nat) < (b :: bs).length := by
      simp only [List.length_cons, Nat.cast_lt]
      omega
    rw [toPolynomial_cons]
    refine (degree_add_le _ _).trans_lt (max_lt ?_ (ih.trans longer))
    exact (degree_C_mul_X_pow_le _ _).trans_lt longer

/-- Bit strings of one length are told apart by their polynomials. -/
theorem eq_of_toPolynomial_eq {as bs : List Bool} (alike : as.length = bs.length)
    (same : toPolynomial as = toPolynomial bs) : as = bs := by
  induction as generalizing bs with
  | nil => exact (List.length_eq_zero_iff.mp alike.symm).symm
  | cons a as ih =>
    cases bs with
    | nil => cases alike
    | cons b bs =>
      have len : as.length = bs.length := Nat.succ.inj alike
      have low (cs : List Bool) : (toPolynomial cs).coeff cs.length = 0 :=
        coeff_eq_zero_of_degree_lt (degree_toPolynomial_lt cs)
      have top := congrArg (fun p => p.coeff bs.length) same
      simp only [toPolynomial_cons, len, coeff_add, coeff_C_mul_X_pow, if_true, low] at top
      have lowA := low as
      rw [len] at lowA
      have head : a = b := by
        rw [lowA] at top
        cases a <;> cases b <;> simp_all
      subst head
      rw [toPolynomial_cons, toPolynomial_cons, len] at same
      rw [ih len (add_left_cancel same)]

theorem toPolynomial_zipWith_xor {as bs : List Bool} (alike : as.length = bs.length) :
    toPolynomial (List.zipWith (· ^^ ·) as bs) = toPolynomial as + toPolynomial bs := by
  induction as generalizing bs with
  | nil =>
    obtain rfl := List.length_eq_zero_iff.mp alike.symm
    simp [toPolynomial]
  | cons a as ih =>
    cases bs with
    | nil => cases alike
    | cons b bs =>
      have len : as.length = bs.length := Nat.succ.inj alike
      have sum : (((a ^^ b).toNat : ZMod 2)) = (a.toNat : ZMod 2) + (b.toNat : ZMod 2) := by
        cases a <;> cases b <;> decide
      rw [List.zipWith_cons_cons, toPolynomial_cons, ih len, List.length_zipWith, len, Nat.min_self,
        sum, C_add, toPolynomial_cons, toPolynomial_cons, len]
      ring

end Bits

namespace Address

noncomputable def divisor : (ZMod 2)[X] := X ^ 16 + X ^ 12 + X ^ 5 + 1

/-- A word as a polynomial, its highest bit being the highest coefficient. -/
noncomputable def wordPolynomial (w : UInt16) : (ZMod 2)[X] :=
  Bits.toPolynomial (Bits.ofNat 16 w.toNat)

noncomputable def messagePolynomial (s : List UInt8) : (ZMod 2)[X] :=
  Bits.toPolynomial (Bits.ofBytes s)

/-- The lowest bit of a word is the constant coefficient. -/
theorem coeff_wordPolynomial (w : UInt16) (i : Nat) :
    (wordPolynomial w).coeff i = ((w.toNat.testBit i).toNat : ZMod 2) := by
  rw [wordPolynomial, Bits.coeff_toPolynomial_ofNat]
  by_cases inside : i < 16
  · simp [inside]
  · have above : w.toNat < 2 ^ i :=
      Nat.lt_of_lt_of_le w.toNat_lt (Nat.pow_le_pow_right (by decide) (Nat.not_lt.mp inside))
    simp [inside, Nat.testBit_lt_two_pow above]

/-- One more byte moves a message up by eight powers. -/
theorem messagePolynomial_snoc (s : List UInt8) (b : UInt8) :
    messagePolynomial (s ++ [b]) =
      messagePolynomial s * X ^ 8 + Bits.toPolynomial (Bits.ofNat 8 b.toNat) := by
  rw [messagePolynomial, Bits.ofBytes, List.flatMap_append, Bits.toPolynomial_append]
  simp [messagePolynomial, Bits.ofBytes, Bits.length_ofNat]

/-- The coefficients of a message are the bits of its bytes, from the lowest one of the last byte
upwards. -/
theorem coeff_messagePolynomial (s : List UInt8) (i : Nat) :
    (messagePolynomial s).coeff i =
      (((s.reverse.getD (i / 8) 0).toNat.testBit (i % 8)).toNat : ZMod 2) := by
  induction s using List.reverseRecOn generalizing i with
  | nil => simp [messagePolynomial, Bits.ofBytes, Bits.toPolynomial]
  | append_singleton s b ih =>
    rw [messagePolynomial_snoc, coeff_add, coeff_mul_X_pow', Bits.coeff_toPolynomial_ofNat,
      List.reverse_append, List.reverse_singleton, List.singleton_append]
    by_cases last : i < 8
    · have here : i / 8 = 0 ∧ i % 8 = i := by omega
      simp [last, here]
    · obtain ⟨j, rfl⟩ := Nat.exists_eq_add_of_le' (Nat.not_lt.mp last)
      have before : (j + 8) / 8 = j / 8 + 1 := by omega
      rw [if_pos (Nat.le_add_left 8 j), Nat.add_sub_cancel, ih, before, Nat.add_mod_right,
        List.getD_cons_succ]
      simp

theorem messagePolynomial_xor {s t : List UInt8} (alike : s.length = t.length) :
    messagePolynomial (List.zipWith (· ^^^ ·) s t) = messagePolynomial s + messagePolynomial t := by
  have bits : (Bits.ofBytes s).length = (Bits.ofBytes t).length := by
    rw [Bits.length_ofBytes, Bits.length_ofBytes, alike]
  rw [messagePolynomial, Bits.ofBytes_zipWith_xor alike, Bits.toPolynomial_zipWith_xor bits]
  rfl

theorem wordPolynomial_xor (v w : UInt16) :
    wordPolynomial (v ^^^ w) = wordPolynomial v + wordPolynomial w := by
  rw [wordPolynomial, UInt16.toNat_xor, Bits.ofNat_xor, Bits.toPolynomial_zipWith_xor]
  · rfl
  · rw [Bits.length_ofNat, Bits.length_ofNat]

theorem monic_divisor : divisor.Monic := by
  rw [divisor]; monicity!

theorem degree_divisor : divisor.degree = 16 := by
  rw [divisor]; compute_degree!

theorem and_top_ne_zero (r : UInt16) : (r &&& 0x8000 != 0) = r.toNat.testBit 15 := by
  have masked : (r &&& 0x8000).toNat = (r.toNat.testBit 15).toNat * 2 ^ 15 := by
    rw [UInt16.toNat_and]
    exact Nat.and_two_pow r.toNat 15
  rw [Bool.eq_iff_iff, bne_iff_ne, ne_eq, ← UInt16.toNat_inj, masked]
  cases r.toNat.testBit 15 <;> decide

/-- A word without its highest bit, moved up. -/
theorem wordPolynomial_shiftLeft_one (r : UInt16) :
    wordPolynomial (r <<< 1) = Bits.toPolynomial (Bits.ofNat 15 r.toNat) * X := by
  have moved : (r <<< 1).toNat = 2 * r.toNat % 2 ^ 16 := by
    rw [UInt16.toNat_shiftLeft, Nat.shiftLeft_eq, Nat.mul_comm]
    rfl
  have halved : 2 * r.toNat / 2 ^ 1 = r.toNat := by omega
  have even : Bits.ofNat 1 (2 * r.toNat) = [false] := by simp [Bits.ofNat]
  rw [wordPolynomial, moved, Bits.ofNat_mod, Bits.ofNat_add 15 1, halved, even,
    Bits.toPolynomial_snoc]
  simp

theorem wordPolynomial_eq (r : UInt16) :
    wordPolynomial r = C ((r.toNat.testBit 15).toNat : ZMod 2) * X ^ 15 +
      Bits.toPolynomial (Bits.ofNat 15 r.toNat) := by
  rw [wordPolynomial, Bits.ofNat_eq_testBit, Bits.toPolynomial_cons, Bits.length_ofNat]

theorem wordPolynomial_feedback : wordPolynomial 0x1021 = X ^ 12 + X ^ 5 + 1 := by
  have bits : Bits.ofNat 16 (0x1021 : UInt16).toNat =
    [false, false, false, true, false, false, false, false, false, false, true, false, false, false,
      false, true] := by decide
  rw [wordPolynomial, bits]
  simp [Bits.toPolynomial]
  ring

noncomputable def residue : (ZMod 2)[X] →+* AdjoinRoot divisor := AdjoinRoot.mk divisor

theorem residue_eq_iff {p q : (ZMod 2)[X]} : residue p = residue q ↔ divisor ∣ p - q :=
  AdjoinRoot.mk_eq_mk

/-- One step multiplies by `x`. -/
theorem residue_shiftRemainder (r : UInt16) :
    residue (wordPolynomial (shiftRemainder r)) = residue (wordPolynomial r * X) := by
  rw [shiftRemainder, and_top_ne_zero, wordPolynomial_eq r]
  cases r.toNat.testBit 15 with
  | false =>
    rw [if_neg Bool.false_ne_true, wordPolynomial_shiftLeft_one]
    simp
  | true =>
    have two : (2 : (ZMod 2)[X]) = 0 := CharTwo.two_eq_zero
    rw [if_pos rfl, wordPolynomial_xor, wordPolynomial_shiftLeft_one, wordPolynomial_feedback,
      residue_eq_iff]
    refine ⟨1, ?_⟩
    rw [divisor]
    simp only [Bool.toNat_true, Nat.cast_one, C_1]
    linear_combination - X ^ 16 * two

theorem residue_repeat (n : Nat) (r : UInt16) :
    residue (wordPolynomial (Nat.repeat shiftRemainder n r)) =
      residue (wordPolynomial r * X ^ n) := by
  induction n with
  | zero => simp [Nat.repeat]
  | succ n ih =>
    rw [Nat.repeat, residue_shiftRemainder, map_mul, ih, ← map_mul, mul_assoc, ← pow_succ]

theorem wordPolynomial_shiftLeft_eight (b : UInt8) :
    wordPolynomial (b.toUInt16 <<< 8) = Bits.toPolynomial (Bits.ofNat 8 b.toNat) * X ^ 8 := by
  have below : b.toNat < 2 ^ 8 := b.toNat_lt
  have moved : (b.toUInt16 <<< 8).toNat = b.toNat * 2 ^ 8 := by
    rw [UInt16.toNat_shiftLeft, Nat.shiftLeft_eq, UInt8.toNat_toUInt16]
    exact Nat.mod_eq_of_lt (by simp; omega)
  have low : Bits.ofNat 8 (b.toNat * 2 ^ 8) = List.replicate 8 false := by
    rw [← Bits.ofNat_mod, Nat.mul_mod_left]
    rfl
  rw [wordPolynomial, moved, Bits.ofNat_add 8 8, Nat.mul_div_cancel _ (by decide), low,
    Bits.toPolynomial_append, Bits.toPolynomial_replicate_false, add_zero, List.length_replicate]

theorem residue_remainderByte (r : UInt16) (b : UInt8) :
    residue (wordPolynomial (remainderByte r b)) =
      residue (wordPolynomial r * X ^ 8 + Bits.toPolynomial (Bits.ofNat 8 b.toNat) * X ^ 16) := by
  rw [remainderByte, residue_repeat, wordPolynomial_xor, wordPolynomial_shiftLeft_eight]
  exact congrArg residue (by ring)

/-- The checksum is congruent to the message times `x ^ 16`. -/
theorem residue_checksum (s : List UInt8) :
    residue (wordPolynomial (checksum s)) = residue (messagePolynomial s * X ^ 16) := by
  induction s using List.reverseRecOn with
  | nil =>
    have zero : wordPolynomial 0 = 0 := Bits.toPolynomial_replicate_false 16
    have nothing : messagePolynomial [] = 0 := rfl
    rw [checksum, List.foldl_nil, zero, nothing, zero_mul]
  | append_singleton s b ih =>
    have step : checksum (s ++ [b]) = remainderByte (checksum s) b := by
      rw [checksum, List.foldl_append]
      rfl
    rw [step, residue_remainderByte, map_add, map_mul, ih, messagePolynomial_snoc, ← map_mul,
      ← map_add]
    exact congrArg residue (by ring)

theorem degree_wordPolynomial_lt (w : UInt16) : (wordPolynomial w).degree < divisor.degree := by
  have below := Bits.degree_toPolynomial_lt (Bits.ofNat 16 w.toNat)
  rw [Bits.length_ofNat] at below
  rw [degree_divisor]
  exact below

/-- The checksum is the remainder of the message times `x ^ 16`. -/
theorem wordPolynomial_checksum (s : List UInt8) :
    wordPolynomial (checksum s) = (messagePolynomial s * X ^ 16) %ₘ divisor := by
  rw [← modByMonic_eq_of_dvd_sub monic_divisor (residue_eq_iff.mp (residue_checksum s)),
    (modByMonic_eq_self_iff monic_divisor).mpr (degree_wordPolynomial_lt _)]

theorem wordPolynomial_inj {v w : UInt16} : wordPolynomial v = wordPolynomial w ↔ v = w := by
  constructor
  · intro same
    have bits := Bits.eq_of_toPolynomial_eq (by rw [Bits.length_ofNat, Bits.length_ofNat]) same
    have numbers := congrArg Bits.toNat bits
    rw [Bits.toNat_ofNat, Bits.toNat_ofNat, Nat.mod_eq_of_lt v.toNat_lt,
      Nat.mod_eq_of_lt w.toNat_lt]
      at numbers
    exact UInt16.toNat_inj.mp numbers
  · rintro rfl
    rfl

theorem checksum_xor {s t : List UInt8} (alike : s.length = t.length) :
    checksum (List.zipWith (· ^^^ ·) s t) = checksum s ^^^ checksum t := by
  apply wordPolynomial_inj.mp
  calc wordPolynomial (checksum (List.zipWith (· ^^^ ·) s t))
      = ((messagePolynomial s + messagePolynomial t) * X ^ 16) %ₘ divisor := by
        rw [wordPolynomial_checksum, messagePolynomial_xor alike]
    _ = (messagePolynomial s * X ^ 16) %ₘ divisor + (messagePolynomial t * X ^ 16) %ₘ divisor := by
        rw [add_mul, add_modByMonic]
    _ = wordPolynomial (checksum s ^^^ checksum t) := by
        rw [← wordPolynomial_checksum, ← wordPolynomial_checksum, wordPolynomial_xor]

/-- Messages and words are read as polynomials over the field of two elements from their lowest bits
upwards. So read, the checksum is the remainder of the message times `x ^ 16`; and exclusive or of
messages of one length becomes exclusive or of their checksums. -/
theorem checksum_is_linear_remainder :
    (∀ (s : List UInt8) (i : Nat), (messagePolynomial s).coeff i =
      (((s.reverse.getD (i / 8) 0).toNat.testBit (i % 8)).toNat : ZMod 2)) ∧
    (∀ (w : UInt16) (i : Nat),
      (wordPolynomial w).coeff i = ((w.toNat.testBit i).toNat : ZMod 2)) ∧
    (∀ s : List UInt8, wordPolynomial (checksum s) =
      (messagePolynomial s * X ^ 16) %ₘ (X ^ 16 + X ^ 12 + X ^ 5 + 1)) ∧
    ∀ s t : List UInt8, s.length = t.length →
      checksum (List.zipWith (· ^^^ ·) s t) = checksum s ^^^ checksum t := by
  refine ⟨coeff_messagePolynomial, coeff_wordPolynomial, ?_, ?_⟩
  · exact wordPolynomial_checksum
  · intro s t alike
    exact checksum_xor alike

def nineDigits : List UInt8 := [0x31, 0x32, 0x33, 0x34, 0x35, 0x36, 0x37, 0x38, 0x39]

theorem remainder_of_nine_digits :
    checksum nineDigits = 0x31C3 ∧
    wordPolynomial 0x31C3 =
      (messagePolynomial nineDigits * X ^ 16) %ₘ (X ^ 16 + X ^ 12 + X ^ 5 + 1) ∧
    nineDigits.length = nineDigits.reverse.length ∧
    checksum [0x08, 0x0A, 0x04, 0x02, 0x00, 0x02, 0x04, 0x0A, 0x08] =
      0x31C3 ^^^ checksum nineDigits.reverse := by
  have sum : checksum nineDigits = 0x31C3 := by decide +kernel
  have difference : List.zipWith (· ^^^ ·) nineDigits nineDigits.reverse =
      [0x08, 0x0A, 0x04, 0x02, 0x00, 0x02, 0x04, 0x0A, 0x08] := by decide
  have alike : nineDigits.length = nineDigits.reverse.length := by decide
  obtain ⟨-, -, remainder, linear⟩ := checksum_is_linear_remainder
  have divided := remainder nineDigits
  have changed := linear nineDigits nineDigits.reverse alike
  rw [sum] at divided changed
  rw [difference] at changed
  exact ⟨sum, divided, alike, changed⟩

end Address
end Turnstile
