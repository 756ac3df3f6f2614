import Turnstile.Proofs.Schema.Checksum
import Turnstile.Proofs.Schema.Formats

/-!
Which texts are addresses. Accepted is one text for each key, the base32 text of the version, the
key and the remainder of both; and no accepted text is another one with one character mistyped.

The second half is a burst error argument. What two accepted texts differ in has a zero syndrome. A
wrong character is five bits, two exchanged ones are ten: inside the message or inside the checksum
such a difference is a polynomial of a degree that the divisor does not divide. Only three places
lie across the border of both; there the syndromes are computed.
-/

namespace Turnstile.Address

open Polynomial

/-- The text of a key: in base32 and without padding, the version, the key and the remainder of
both, low byte first. -/
def IsAddressOf (key : List UInt8) (t : String) : Prop :=
  ∃ w : UInt16, wordPolynomial w = (messagePolynomial (0x30 :: key) * X ^ 16) %ₘ divisor ∧
    t.toList = base32.encode (0x30 :: key ++ [w.toUInt8, (w >>> 8).toUInt8])

theorem isAddressOf_iff {key : List UInt8} {t : String} :
    IsAddressOf key t ↔ t.toList = encode key := by
  constructor
  · rintro ⟨w, remainder, written⟩
    rw [← wordPolynomial_checksum] at remainder
    obtain rfl := wordPolynomial_inj.mp remainder
    exact written
  · intro written
    exact ⟨checksum (0x30 :: key), wordPolynomial_checksum _, written⟩

/-- The bytes of an address. -/
def envelope (key : List UInt8) : List UInt8 :=
  accountVersion :: key ++ lowHigh (checksum (accountVersion :: key))

theorem length_envelope {key : List UInt8} (len : key.length = 32) :
    (envelope key).length = 35 := by
  simp [envelope, lowHigh, len]

theorem bits?_encode {key : List UInt8} (len : key.length = 32) :
    base32.bits? (encode key) = some (Bits.ofBytes (envelope key)) := by
  apply Bits.Code.bits?_encode isLawful_base32
  rw [← envelope, length_envelope len]
  decide

theorem encode_inj {key other : List UInt8} (len : key.length = 32) (otherLen : other.length = 32)
    (same : encode key = encode other) : key = other := by
  have bits := congrArg base32.bits? same
  rw [bits?_encode len, bits?_encode otherLen] at bits
  have bytes := congrArg Bits.toBytes (Option.some.inj bits)
  rw [Bits.toBytes_ofBytes, Bits.toBytes_ofBytes] at bytes
  have tails := (List.cons.inj (Prod.mk.inj bytes).1).2
  exact (List.append_inj tails (len.trans otherLen.symm)).1

/-- The accepted texts are the addresses, each of one key, and each key has one of them. -/
theorem accepts_one_text_for_each_key :
    (∀ t : String, isAccount t = true ↔
      ∃! key : List UInt8, key.length = 32 ∧ IsAddressOf key t) ∧
    ∀ key : List UInt8, key.length = 32 →
      ∃! t : String, isAccount t = true ∧ IsAddressOf key t := by
  constructor
  · intro t
    rw [isAccount_iff]
    constructor
    · rintro ⟨key, len, written⟩
      refine ⟨key, ⟨len, isAddressOf_iff.mpr written⟩, ?_⟩
      rintro other ⟨otherLen, alsoWritten⟩
      exact encode_inj otherLen len ((isAddressOf_iff.mp alsoWritten).symm.trans written)
    · rintro ⟨key, ⟨len, address⟩, -⟩
      exact ⟨key, len, isAddressOf_iff.mp address⟩
  · intro key len
    have written : (String.ofList (encode key)).toList = encode key := String.toList_ofList
    refine ⟨String.ofList (encode key), ⟨?_, isAddressOf_iff.mpr written⟩, ?_⟩
    · exact isAccount_iff.mpr ⟨key, len, written⟩
    · rintro other ⟨-, address⟩
      rw [← String.toList_inj, written]
      exact isAddressOf_iff.mp address

theorem one_key_for_counting_address :
    isAccount "GAAACAQDAQCQMBYIBEFAWDANBYHRAEISCMKBKFQXDAMRUGY4DUPB7JZX" = true ∧
    (∃! key : List UInt8, key.length = 32 ∧
      IsAddressOf key "GAAACAQDAQCQMBYIBEFAWDANBYHRAEISCMKBKFQXDAMRUGY4DUPB7JZX") ∧
    ∃! t : String, isAccount t = true ∧ IsAddressOf ((List.range 32).map UInt8.ofNat) t := by
  have accepted :
      isAccount "GAAACAQDAQCQMBYIBEFAWDANBYHRAEISCMKBKFQXDAMRUGY4DUPB7JZX" = true := by
    decide +kernel
  exact ⟨accepted, (accepts_one_text_for_each_key.1 _).mp accepted,
    accepts_one_text_for_each_key.2 _ (by decide)⟩

/-- A word of sixteen bits is its high byte and then its low one. -/
theorem ofNat_highLow (w : UInt16) :
    Bits.ofNat 8 (w >>> 8).toUInt8.toNat ++ Bits.ofNat 8 w.toUInt8.toNat =
      Bits.ofNat 16 w.toNat := by
  have high : (w >>> 8).toUInt8.toNat = w.toNat / 2 ^ 8 % 2 ^ 8 := by
    rw [UInt16.toNat_toUInt8, UInt16.toNat_shiftRight, Nat.shiftRight_eq_div_pow]
    rfl
  rw [high, UInt16.toNat_toUInt8, Bits.ofNat_mod, Bits.ofNat_mod, ← Bits.ofNat_add]

/-- The message times `x ^ 16` and the checksum behind it, whose bytes stand the other way
round. -/
noncomputable def syndrome (bs : List Bool) : AdjoinRoot divisor :=
  residue (Bits.toPolynomial (bs.take 264) * X ^ 16 +
    Bits.toPolynomial (bs.drop 272 ++ (bs.drop 264).take 8))

theorem syndrome_of_isAccount {t : String} (accepted : isAccount t = true) :
    ∃ bs, base32.bits? t.toList = some bs ∧ bs.length = 280 ∧ syndrome bs = 0 := by
  obtain ⟨key, len, written⟩ := isAccount_iff.mp accepted
  refine ⟨Bits.ofBytes (envelope key), written ▸ bits?_encode len, ?_, ?_⟩
  · rw [Bits.length_ofBytes, length_envelope len]
  · generalize sum : checksum (accountVersion :: key) = w
    have parts : Bits.ofBytes (envelope key) = Bits.ofBytes (accountVersion :: key) ++
        (Bits.ofNat 8 w.toUInt8.toNat ++ Bits.ofNat 8 (w >>> 8).toUInt8.toNat) := by
      rw [envelope, sum, Bits.ofBytes, List.flatMap_append]
      simp [Bits.ofBytes, lowHigh]
    have body : (Bits.ofBytes (accountVersion :: key)).length = 264 := by
      rw [Bits.length_ofBytes, List.length_cons, len]
    have low : (Bits.ofNat 8 w.toUInt8.toNat).length = 8 := Bits.length_ofNat _ _
    have behind : (Bits.ofBytes (accountVersion :: key) ++
        (Bits.ofNat 8 w.toUInt8.toNat ++ Bits.ofNat 8 (w >>> 8).toUInt8.toNat)).drop 272 =
        Bits.ofNat 8 (w >>> 8).toUInt8.toNat := by
      rw [← List.append_assoc]
      exact List.drop_left' (by rw [List.length_append, body, low])
    rw [parts, syndrome, behind, List.take_left' body, List.drop_left' body, List.take_left' low,
      ofNat_highLow, map_add, ← messagePolynomial, ← residue_checksum, sum, ← map_add,
      ← wordPolynomial, CharTwo.add_self_eq_zero, map_zero]

theorem syndrome_xor {as bs : List Bool} (alike : as.length = bs.length) :
    syndrome (List.zipWith (· ^^ ·) as bs) = syndrome as + syndrome bs := by
  have taken : (as.take 264).length = (bs.take 264).length := by simp [alike]
  have dropped : (as.drop 272).length = (bs.drop 272).length := by simp [alike]
  have swapped : (as.drop 272 ++ (as.drop 264).take 8).length =
      (bs.drop 272 ++ (bs.drop 264).take 8).length := by simp [alike]
  simp only [syndrome, List.take_zipWith, List.drop_zipWith]
  rw [← List.zipWith_append dropped, Bits.toPolynomial_zipWith_xor taken,
    Bits.toPolynomial_zipWith_xor swapped, ← map_add]
  exact congrArg residue (by ring)

/-- A few bits with nothing but zeros around them. -/
def burst (front back : Nat) (d : List Bool) : List Bool :=
  List.replicate front false ++ (d ++ List.replicate back false)

theorem burst_add (zeros front back : Nat) (d : List Bool) :
    burst (zeros + front) back d = List.replicate zeros false ++ burst front back d := by
  rw [burst, burst, List.replicate_add, List.append_assoc]

theorem length_burst (front back : Nat) (d : List Bool) :
    (burst front back d).length = front + (d.length + back) := by
  simp [burst]

theorem isCoprime_divisor_X_pow (n : Nat) : IsCoprime divisor (X ^ n) := by
  refine IsCoprime.pow_right ⟨1, -(X ^ 15 + X ^ 11 + X ^ 4), ?_⟩
  rw [divisor]
  ring

/-- A short burst is no multiple of the divisor, wherever it stands. -/
theorem notMem_of_residue {d : List Bool} (short : d.length ≤ 16) {n : Nat}
    (h : residue (Bits.toPolynomial d * X ^ n) = 0) : true ∉ d := by
  rw [residue, AdjoinRoot.mk_eq_zero] at h
  have divides := (isCoprime_divisor_X_pow n).dvd_of_dvd_mul_right h
  have small : (Bits.toPolynomial d).degree < divisor.degree := by
    rw [degree_divisor]
    exact (Bits.degree_toPolynomial_lt d).trans_le (by exact_mod_cast short)
  have zero := eq_zero_of_dvd_of_degree_lt divides small
  have none_set : d = List.replicate d.length false := by
    apply Bits.eq_of_toPolynomial_eq (by rw [List.length_replicate])
    rw [zero, Bits.toPolynomial_replicate_false]
  rw [none_set]
  simp [List.mem_replicate]

theorem notMem_of_syndrome_message {front back : Nat} {d : List Bool}
    (inside : front + d.length ≤ 264) (total : front + d.length + back = 280)
    (short : d.length ≤ 16) (h : syndrome (burst front back d) = 0) : true ∉ d := by
  obtain ⟨rest, rfl⟩ : ∃ rest, back = rest + 16 := ⟨back - 16, by omega⟩
  have parts : burst front (rest + 16) d =
      (List.replicate front false ++ (d ++ List.replicate rest false)) ++
        List.replicate 16 false := by
    rw [burst, List.replicate_add, List.append_assoc, List.append_assoc]
  have message :
      (List.replicate front false ++ (d ++ List.replicate rest false)).length = 264 := by
    simp
    omega
  have behind : ((List.replicate front false ++ (d ++ List.replicate rest false)) ++
      List.replicate 16 false).drop 272 = List.replicate 8 false := by
    rw [List.drop_append, List.drop_of_length_le (by omega), message]
    rfl
  have zeros : List.replicate 8 false ++ (List.replicate 16 false).take 8 =
      List.replicate 16 false := rfl
  rw [parts, syndrome, behind, List.take_left' message, List.drop_left' message, zeros,
    Bits.toPolynomial_replicate_false, add_zero, Bits.toPolynomial_append,
    Bits.toPolynomial_replicate_false, zero_mul, zero_add, Bits.toPolynomial_append,
    Bits.toPolynomial_replicate_false, add_zero, mul_assoc, ← pow_add] at h
  exact notMem_of_residue short h

theorem notMem_of_syndrome_checksum {front back : Nat} {d : List Bool} (behind : 264 ≤ front)
    (total : front + d.length + back = 280) (h : syndrome (burst front back d) = 0) :
    true ∉ d := by
  obtain ⟨more, rfl⟩ := Nat.exists_eq_add_of_le behind
  have message : (List.replicate 264 false).length = 264 := List.length_replicate
  have later : (List.replicate 264 false ++ burst more back d).drop 272 =
      (burst more back d).drop 8 := by
    rw [List.drop_append, message, List.drop_of_length_le (by omega), List.nil_append]
  rw [burst_add, syndrome, List.take_left' message, List.drop_left' message, later,
    Bits.toPolynomial_replicate_false, zero_mul, zero_add, ← mul_one (Bits.toPolynomial _),
    ← pow_zero X] at h
  intro set
  have inside : true ∈ burst more back d := by simp [burst, set]
  rw [← List.take_append_drop 8 (burst more back d), List.mem_append, or_comm,
    ← List.mem_append] at inside
  refine notMem_of_residue ?_ h inside
  simp [length_burst]
  omega

/-- The last two bytes of a message of zeros and the checksum behind them agree. -/
def agreesAtEnd (bs : List Bool) : Bool :=
  checksum (Bits.toBytes (bs.take 16)).1 ==
    UInt16.ofNat (Bits.toNat (bs.drop 24 ++ (bs.drop 16).take 8))

theorem wordPolynomial_ofNat {bs : List Bool} (len : bs.length = 16) :
    wordPolynomial (UInt16.ofNat (Bits.toNat bs)) = Bits.toPolynomial bs := by
  have below := Bits.toNat_lt bs
  have back := Bits.ofNat_toNat bs
  rw [len] at below back
  rw [wordPolynomial, UInt16.toNat_ofNat_of_lt' below, back]

theorem ofBytes_toBytes_of_dvd {bs : List Bool} (whole : 8 ∣ bs.length) :
    Bits.ofBytes (Bits.toBytes bs).1 = bs := by
  obtain ⟨taken, few⟩ := Bits.ofBytes_toBytes bs
  have total := congrArg List.length taken
  rw [List.length_append, Bits.length_ofBytes] at total
  have none_left : (Bits.toBytes bs).2 = [] := List.length_eq_zero_iff.mp (by omega)
  rwa [none_left, List.append_nil] at taken

theorem residue_wordPolynomial_inj {v w : UInt16}
    (h : residue (wordPolynomial v) = residue (wordPolynomial w)) : v = w := by
  have same := modByMonic_eq_of_dvd_sub monic_divisor (residue_eq_iff.mp h)
  rw [(modByMonic_eq_self_iff monic_divisor).mpr (degree_wordPolynomial_lt v),
    (modByMonic_eq_self_iff monic_divisor).mpr (degree_wordPolynomial_lt w)] at same
  exact wordPolynomial_inj.mp same

theorem agreesAtEnd_of_syndrome {front back : Nat} {d : List Bool}
    (total : front + (d.length + back) = 32) (h : syndrome (burst (248 + front) back d) = 0) :
    agreesAtEnd (burst front back d) = true := by
  have len := (length_burst front back d).trans total
  rw [burst_add] at h
  generalize burst front back d = bs at len h ⊢
  have zeros : (List.replicate 248 false).length = 248 := List.length_replicate
  have taken : (List.replicate 248 false ++ bs).take (248 + 16) =
      List.replicate 248 false ++ bs.take 16 := by
    rw [List.take_append, zeros, List.take_of_length_le (by omega), Nat.add_sub_cancel_left]
  have dropped (n : Nat) : (List.replicate 248 false ++ bs).drop (248 + n) = bs.drop n := by
    rw [List.drop_append, zeros, List.drop_of_length_le (by omega), List.nil_append,
      Nat.add_sub_cancel_left]
  have message : Bits.ofBytes (Bits.toBytes (bs.take 16)).1 = bs.take 16 :=
    ofBytes_toBytes_of_dvd (by rw [List.length_take, len]; decide)
  have word : (bs.drop 24 ++ (bs.drop 16).take 8).length = 16 := by simp [len]
  rw [syndrome, taken, dropped 24, dropped 16, Bits.toPolynomial_append,
    Bits.toPolynomial_replicate_false, zero_mul, zero_add, ← wordPolynomial_ofNat word, ← message,
    ← messagePolynomial, map_add, ← residue_checksum, ← map_add] at h
  rw [agreesAtEnd, beq_iff_eq]
  apply residue_wordPolynomial_inj
  rwa [← sub_eq_zero, ← map_sub, CharTwo.sub_eq_add]

theorem true_mem_ofNat {k : Nat} (small : k < 32) (set : k ≠ 0) : true ∈ Bits.ofNat 5 k := by
  revert k
  decide

/-- Bursts across the border of message and checksum: the character there, and the two exchanges
that move it. -/
theorem not_agreesAtEnd {k : Nat} (small : k < 32) (set : k ≠ 0) :
    agreesAtEnd (burst 12 15 (Bits.ofNat 5 k)) = false ∧
    agreesAtEnd (burst 7 15 (Bits.ofNat 5 k ++ Bits.ofNat 5 k)) = false ∧
    agreesAtEnd (burst 12 10 (Bits.ofNat 5 k ++ Bits.ofNat 5 k)) = false := by
  revert k
  decide +kernel

theorem syndrome_character_ne_zero {front back k : Nat}
    (total : 5 * front + 5 + 5 * back = 280) (small : k < 32) (set : k ≠ 0) :
    syndrome (burst (5 * front) (5 * back) (Bits.ofNat 5 k)) ≠ 0 := by
  intro zero
  have len : (Bits.ofNat 5 k).length = 5 := Bits.length_ofNat 5 k
  have isSet := true_mem_ofNat small set
  have across := not_agreesAtEnd small set
  obtain inside | rfl | behind : front ≤ 51 ∨ front = 52 ∨ 53 ≤ front := by omega
  · exact notMem_of_syndrome_message (by omega) (by omega) (by omega) zero isSet
  · obtain rfl : back = 3 := by omega
    have agrees : agreesAtEnd (burst 12 15 (Bits.ofNat 5 k)) = true :=
      agreesAtEnd_of_syndrome (by omega) zero
    exact Bool.false_ne_true (across.1.symm.trans agrees)
  · exact notMem_of_syndrome_checksum (by omega) (by omega) zero isSet

theorem syndrome_exchange_ne_zero {front back k : Nat}
    (total : 5 * front + 10 + 5 * back = 280) (small : k < 32) (set : k ≠ 0) :
    syndrome (burst (5 * front) (5 * back) (Bits.ofNat 5 k ++ Bits.ofNat 5 k)) ≠ 0 := by
  have len : (Bits.ofNat 5 k ++ Bits.ofNat 5 k).length = 10 := by
    rw [List.length_append, Bits.length_ofNat]
  have isSet := List.mem_append_left (Bits.ofNat 5 k) (true_mem_ofNat small set)
  have across := (not_agreesAtEnd small set).2
  generalize Bits.ofNat 5 k ++ Bits.ofNat 5 k = d at len isSet across
  intro zero
  obtain inside | rfl | rfl | behind :
    front ≤ 50 ∨ front = 51 ∨ front = 52 ∨ 53 ≤ front := by omega
  · exact notMem_of_syndrome_message (by omega) (by omega) (by omega) zero isSet
  · obtain rfl : back = 3 := by omega
    have agrees : agreesAtEnd (burst 7 15 d) = true := agreesAtEnd_of_syndrome (by omega) zero
    exact Bool.false_ne_true (across.1.symm.trans agrees)
  · obtain rfl : back = 2 := by omega
    have agrees : agreesAtEnd (burst 12 10 d) = true := agreesAtEnd_of_syndrome (by omega) zero
    exact Bool.false_ne_true (across.2.symm.trans agrees)
  · exact notMem_of_syndrome_checksum (by omega) (by omega) zero isSet

/-- One character is mistyped: another one stands in its place, or it is exchanged with its
neighbour. -/
inductive Mistyped : List Char → List Char → Prop
  | replaced (front : List Char) (c d : Char) (back : List Char) (other : c ≠ d) :
    Mistyped (front ++ c :: back) (front ++ d :: back)
  | exchanged (front : List Char) (c d : Char) (back : List Char) (other : c ≠ d) :
    Mistyped (front ++ c :: d :: back) (front ++ d :: c :: back)

theorem zipWith_xor_self (bs : List Bool) :
    List.zipWith (· ^^ ·) bs bs = List.replicate bs.length false := by
  rw [List.zipWith_self, List.map_congr_left (fun b _ => Bool.xor_self b), List.map_const']

theorem zipWith_xor_append (as bs cs : List Bool) :
    List.zipWith (· ^^ ·) (as ++ bs) (as ++ cs) =
      List.replicate as.length false ++ List.zipWith (· ^^ ·) bs cs := by
  rw [List.zipWith_append rfl, zipWith_xor_self]

/-- What a mistyped character changes in the bits. -/
theorem burst_of_mistyped {cs ds : List Char} {as bs : List Bool} (slip : Mistyped cs ds)
    (readC : base32.bits? cs = some as) (readD : base32.bits? ds = some bs) :
    ∃ front back k, k < 32 ∧ k ≠ 0 ∧
      (List.zipWith (· ^^ ·) as bs = burst (5 * front) (5 * back) (Bits.ofNat 5 k) ∨
        List.zipWith (· ^^ ·) as bs =
          burst (5 * front) (5 * back) (Bits.ofNat 5 k ++ Bits.ofNat 5 k)) := by
  have width : base32.width = 5 := rfl
  cases slip with
  | replaced front c d back other =>
    simp only [Bits.Code.bits?_append, Bits.Code.bits?_cons, Option.bind_eq_some_iff,
      Option.map_eq_some_iff, width] at readC readD
    obtain ⟨f, readF, _, ⟨m, digitC, b, readB, rfl⟩, rfl⟩ := readC
    obtain ⟨f', readF', _, ⟨n, digitD, b', readB', rfl⟩, rfl⟩ := readD
    obtain rfl := Option.some.inj (readF.symm.trans readF')
    obtain rfl := Option.some.inj (readB.symm.trans readB')
    refine ⟨front.length, back.length, m ^^^ n, ?_, ?_, .inl ?_⟩
    · exact Nat.xor_lt_two_pow (Bits.Code.lt_of_digit? isLawful_base32 digitC)
        (Bits.Code.lt_of_digit? isLawful_base32 digitD)
    · rw [Ne, Nat.xor_eq_zero_iff]
      rintro rfl
      exact other (Bits.Code.digit?_inj isLawful_base32 digitC digitD)
    · rw [zipWith_xor_append, List.zipWith_append (by rw [Bits.length_ofNat, Bits.length_ofNat]),
        ← Bits.ofNat_xor, zipWith_xor_self, Bits.Code.length_of_bits? isLawful_base32 readF,
        Bits.Code.length_of_bits? isLawful_base32 readB]
      rfl
  | exchanged front c d back other =>
    simp only [Bits.Code.bits?_append, Bits.Code.bits?_cons, Option.bind_eq_some_iff,
      Option.map_eq_some_iff, width] at readC readD
    obtain ⟨f, readF, _, ⟨m, digitC, _, ⟨n, digitD, b, readB, rfl⟩, rfl⟩, rfl⟩ := readC
    obtain ⟨f', readF', _, ⟨n', digitD', _, ⟨m', digitC', b', readB', rfl⟩, rfl⟩, rfl⟩ := readD
    obtain rfl := Option.some.inj (readF.symm.trans readF')
    obtain rfl := Option.some.inj (readB.symm.trans readB')
    obtain rfl := Option.some.inj (digitC.symm.trans digitC')
    obtain rfl := Option.some.inj (digitD.symm.trans digitD')
    refine ⟨front.length, back.length, m ^^^ n, ?_, ?_, .inr ?_⟩
    · exact Nat.xor_lt_two_pow (Bits.Code.lt_of_digit? isLawful_base32 digitC)
        (Bits.Code.lt_of_digit? isLawful_base32 digitD)
    · rw [Ne, Nat.xor_eq_zero_iff]
      rintro rfl
      exact other (Bits.Code.digit?_inj isLawful_base32 digitC digitD)
    · rw [zipWith_xor_append, List.zipWith_append (by rw [Bits.length_ofNat, Bits.length_ofNat]),
        List.zipWith_append (by rw [Bits.length_ofNat, Bits.length_ofNat]), ← Bits.ofNat_xor,
        ← Bits.ofNat_xor, Nat.xor_comm n m, zipWith_xor_self,
        Bits.Code.length_of_bits? isLawful_base32 readF,
        Bits.Code.length_of_bits? isLawful_base32 readB, burst, List.append_assoc]
      rfl

/-- No accepted text becomes another one by one mistyped character. -/
theorem not_isAccount_of_mistyped {s t : String} (accepted : isAccount s = true)
    (slip : Mistyped s.toList t.toList) : isAccount t = false := by
  rw [← Bool.not_eq_true]
  intro alsoAccepted
  obtain ⟨as, readS, lenS, zeroS⟩ := syndrome_of_isAccount accepted
  obtain ⟨bs, readT, lenT, zeroT⟩ := syndrome_of_isAccount alsoAccepted
  have zero : syndrome (List.zipWith (· ^^ ·) as bs) = 0 := by
    rw [syndrome_xor (lenS.trans lenT.symm), zeroS, zeroT, add_zero]
  have length : (List.zipWith (· ^^ ·) as bs).length = 280 := by
    rw [List.length_zipWith, lenS, lenT, Nat.min_self]
  obtain ⟨front, back, k, small, set, one | two⟩ := burst_of_mistyped slip readS readT
  · rw [one] at zero length
    have total : 5 * front + 5 + 5 * back = 280 := by
      simpa [burst, Bits.length_ofNat, Nat.add_assoc] using length
    exact syndrome_character_ne_zero total small set zero
  · rw [two] at zero length
    have total : 5 * front + 10 + 5 * back = 280 := by
      simp only [burst, List.length_append, List.length_replicate, Bits.length_ofNat] at length
      omega
    exact syndrome_exchange_ne_zero total small set zero

theorem mistyped_zero_address_refused :
    isAccount "GAAAAAAAAAAAAAAAAAAAAAAAAAAAAAAAAAAAAAAAAAAAAAAAAAAAAWHF" = true ∧
    isAccount "GAAAAAAAAAAAAAAAAAAAAAAAAAAAAAAAAAAAAAAAAAAAAAAAAAAAAWHG" = false ∧
    isAccount "GAAAAAAAAAAAAAAAAAAAAAAAAAAAAAAAAAAAAAAAAAAAAAAAAAAAAHWF" = false := by
  have accepted :
      isAccount "GAAAAAAAAAAAAAAAAAAAAAAAAAAAAAAAAAAAAAAAAAAAAAAAAAAAAWHF" = true := by
    decide +kernel
  have replaced : Mistyped ("GAAAAAAAAAAAAAAAAAAAAAAAAAAAAAAAAAAAAAAAAAAAAAAAAAAAAWH" ++ "F").toList
      ("GAAAAAAAAAAAAAAAAAAAAAAAAAAAAAAAAAAAAAAAAAAAAAAAAAAAAWH" ++ "G").toList := by
    rw [String.toList_append, String.toList_append]
    exact .replaced _ 'F' 'G' [] (by decide)
  have exchanged : Mistyped
      ("GAAAAAAAAAAAAAAAAAAAAAAAAAAAAAAAAAAAAAAAAAAAAAAAAAAAA" ++ "WHF").toList
      ("GAAAAAAAAAAAAAAAAAAAAAAAAAAAAAAAAAAAAAAAAAAAAAAAAAAAA" ++ "HWF").toList := by
    rw [String.toList_append, String.toList_append]
    exact .exchanged _ 'W' 'H' ['F'] (by decide)
  exact ⟨accepted, not_isAccount_of_mistyped accepted replaced,
    not_isAccount_of_mistyped accepted exchanged⟩

end Turnstile.Address
