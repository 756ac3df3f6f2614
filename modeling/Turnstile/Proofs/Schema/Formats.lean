import Turnstile.Proofs.Bits
import Turnstile.Schema.Address
import Turnstile.Schema.Formats

namespace Turnstile

namespace Formats

/-- Groups of characters with a hyphen between each and the next. -/
def hyphenated (groups : List (List Char)) : List Char := ['-'].intercalate groups

theorem hyphenated_cons_cons (g h : List Char) (gs : List (List Char)) :
    hyphenated (g :: h :: gs) = g ++ '-' :: hyphenated (h :: gs) := by
  simp [hyphenated, List.intercalate, List.intersperse]

theorem isGrouped_cons_cons_iff {n k : Nat} {ns : List Nat} {cs : List Char} :
    isGrouped (n :: k :: ns) cs = true ↔
      ∃ g rest, cs = g ++ '-' :: rest ∧ g.length = n ∧ (∀ c ∈ g, isHex c = true) ∧
        isGrouped (k :: ns) rest = true := by
  simp only [isGrouped, Bool.and_eq_true, beq_iff_eq, List.all_eq_true]
  constructor
  · rintro ⟨⟨len, hex⟩, tail⟩
    split at tail
    · next rest behind =>
      refine ⟨cs.take n, rest, ?_, len, hex, tail⟩
      rw [← behind, List.take_append_drop]
    · cases tail
  · rintro ⟨g, rest, rfl, rfl, hex, tail⟩
    rw [List.take_left, List.drop_left]
    exact ⟨⟨rfl, hex⟩, tail⟩

theorem isGrouped_iff {n : Nat} {ns : List Nat} {cs : List Char} :
    isGrouped (n :: ns) cs = true ↔
      ∃ groups : List (List Char), groups.map List.length = n :: ns ∧
        (∀ g ∈ groups, ∀ c ∈ g, isHex c = true) ∧ cs = hyphenated groups := by
  induction ns generalizing n cs with
  | nil =>
    simp only [isGrouped, Bool.and_eq_true, beq_iff_eq, List.all_eq_true]
    constructor
    · rintro ⟨len, hex⟩
      exact ⟨[cs], by simp [len], by simpa using hex, by simp [hyphenated]⟩
    · rintro ⟨groups, lengths, hex, rfl⟩
      obtain ⟨g, rfl, len⟩ : ∃ g, groups = [g] ∧ g.length = n := by
        simpa [List.map_eq_singleton_iff] using lengths
      exact ⟨by simpa [hyphenated] using len, by simpa [hyphenated] using hex⟩
  | cons k ns ih =>
    rw [isGrouped_cons_cons_iff]
    constructor
    · rintro ⟨g, rest, rfl, len, hex, tail⟩
      obtain ⟨groups, lengths, hexes, rfl⟩ := ih.mp tail
      obtain ⟨h, gs, rfl, -, -⟩ := List.map_eq_cons_iff.mp lengths
      refine ⟨g :: h :: gs, ?_, List.forall_mem_cons.mpr ⟨hex, hexes⟩, ?_⟩
      · rw [List.map_cons, len, lengths]
      · rw [hyphenated_cons_cons]
    · rintro ⟨groups, lengths, hexes, rfl⟩
      obtain ⟨g, later, rfl, len, lengths⟩ := List.map_eq_cons_iff.mp lengths
      obtain ⟨h, gs, rfl, -, -⟩ := List.map_eq_cons_iff.mp lengths
      obtain ⟨hex, hexes⟩ := List.forall_mem_cons.mp hexes
      exact ⟨g, hyphenated (h :: gs), hyphenated_cons_cons g h gs, len, hex,
        ih.mpr ⟨h :: gs, lengths, hexes, rfl⟩⟩

/-- Eight, four, four, four and twelve hexadecimal digits with hyphens between them. -/
def IsUuid (t : String) : Prop :=
  ∃ groups : List (List Char), groups.map List.length = [8, 4, 4, 4, 12] ∧
    (∀ g ∈ groups, ∀ c ∈ g,
      '0' ≤ c ∧ c ≤ '9' ∨ 'a' ≤ c ∧ c ≤ 'f' ∨ 'A' ≤ c ∧ c ≤ 'F') ∧
    t.toList = hyphenated groups

theorem isHex_iff {c : Char} :
    isHex c = true ↔ '0' ≤ c ∧ c ≤ '9' ∨ 'a' ≤ c ∧ c ≤ 'f' ∨ 'A' ≤ c ∧ c ≤ 'F' := by
  rw [isHex, Bool.or_eq_true, Bool.or_eq_true, or_assoc, Char.isDigit]
  simp [Char.le_def]

theorem isUuid_iff {t : String} : isUuid t = true ↔ IsUuid t := by
  rw [isUuid, uuidGroups, isGrouped_iff]
  simp only [IsUuid, isHex_iff]

end Formats

namespace Address

theorem isLawful_base32 : base32.IsLawful := ⟨by decide, by decide, by decide⟩

/-- The address of an account: that of a key of 32 bytes. -/
def IsAccount (t : String) : Prop := ∃ key : List UInt8, key.length = 32 ∧ t.toList = encode key

/-! The buffer holds the bits that have been read and are not written yet, fewer than eight before a
character is read and then up to twelve. -/

theorem toNat_shiftLeft_or {buffer : UInt32} {value : Nat} (few : buffer.toNat < 2 ^ 8)
    (digit : value < 2 ^ 5) :
    ((buffer <<< 5) ||| UInt32.ofNat value).toNat = buffer.toNat * 2 ^ 5 + value := by
  have shifted : (buffer <<< 5).toNat = buffer.toNat <<< 5 := by
    rw [UInt32.toNat_shiftLeft, show (5 : UInt32).toNat % 32 = 5 from rfl, Nat.shiftLeft_eq]
    exact Nat.mod_eq_of_lt (by omega)
  have written : (UInt32.ofNat value).toNat = value :=
    UInt32.toNat_ofNat_of_lt' (Nat.lt_trans digit (by decide))
  rw [UInt32.toNat_or, shifted, written, ← Nat.shiftLeft_add_eq_or_of_lt digit, Nat.shiftLeft_eq]

theorem toNat_ofNat_bits {bits : Nat} (few : bits < 8) : (UInt32.ofNat bits).toNat % 32 = bits := by
  rw [UInt32.toNat_ofNat_of_lt' (Nat.lt_trans few (by decide)), Nat.mod_eq_of_lt (by omega)]

theorem toNat_and_low {buffer : UInt32} {bits : Nat} (few : bits < 8) :
    (buffer &&& ((1 <<< UInt32.ofNat bits) - 1)).toNat = buffer.toNat % 2 ^ bits := by
  have power : 2 ^ bits < 2 ^ 32 := Nat.pow_lt_pow_right (by decide) (by omega)
  have one : (1 <<< UInt32.ofNat bits : UInt32).toNat = 2 ^ bits := by
    rw [UInt32.toNat_shiftLeft, toNat_ofNat_bits few, UInt32.toNat_one, Nat.one_shiftLeft,
      Nat.mod_eq_of_lt power]
  have mask : ((1 <<< UInt32.ofNat bits) - 1 : UInt32).toNat = 2 ^ bits - 1 := by
    rw [UInt32.toNat_sub_of_le _ _ (by rw [UInt32.le_iff_toNat_le, one]; exact Nat.two_pow_pos bits),
      one]
    rfl
  rw [UInt32.toNat_and, mask, Nat.and_two_pow_sub_one_eq_mod]

theorem toNat_shiftRight {buffer : UInt32} {bits : Nat} (few : bits < 8) :
    (buffer >>> UInt32.ofNat bits).toNat = buffer.toNat / 2 ^ bits := by
  rw [UInt32.toNat_shiftRight, toNat_ofNat_bits few, Nat.shiftRight_eq_div_pow]

/-- The bytes of a bit string, if the bits left over behind them are zero. -/
def wholeBytes? (bits : List Bool) : Option (List UInt8) :=
  if (Bits.toBytes bits).2.all (!·) then some (Bits.toBytes bits).1 else none

theorem wholeBytes?_append {g : List Bool} (full : g.length = 8) (bits : List Bool) :
    wholeBytes? (g ++ bits) = (wholeBytes? bits).map (UInt8.ofNat (Bits.toNat g) :: ·) := by
  unfold wholeBytes?
  rw [Bits.toBytes_append full]
  split <;> rfl

theorem wholeBytes?_of_short {bits n : Nat} (few : bits < 8) (fits : n < 2 ^ bits) :
    wholeBytes? (Bits.ofNat bits n) = if n = 0 then some [] else none := by
  unfold wholeBytes?
  rw [Bits.toBytes_of_short (by rw [Bits.length_ofNat]; exact few)]
  have zero : (Bits.ofNat bits n).all (!·) = true ↔ n = 0 := by
    rw [← Bits.toNat_eq_zero_iff, Bits.toNat_ofNat, Nat.mod_eq_of_lt fits]
  by_cases none_set : n = 0
  · rw [if_pos (zero.mpr none_set), if_pos none_set]
  · rw [if_neg (mt zero.mp none_set), if_neg none_set]

/-- The first eight bits of a buffer make a byte, and the others stay. -/
theorem wholeBytes?_buffer {left : Nat} (few : left < 8) (buffer : UInt32) (more : List Bool) :
    wholeBytes? (Bits.ofNat (8 + left) buffer.toNat ++ more) =
      (wholeBytes? (Bits.ofNat left (buffer &&& ((1 <<< UInt32.ofNat left) - 1)).toNat ++ more)).map
        ((buffer >>> UInt32.ofNat left).toUInt8 :: ·) := by
  have byte : UInt8.ofNat (Bits.toNat (Bits.ofNat 8 (buffer.toNat / 2 ^ left))) =
      (buffer >>> UInt32.ofNat left).toUInt8 := by
    rw [← UInt8.toNat_inj, UInt32.toNat_toUInt8, toNat_shiftRight few, Bits.toNat_ofNat]
    exact UInt8.toNat_ofNat_of_lt' (Nat.mod_lt _ (by decide))
  rw [toNat_and_low few, Bits.ofNat_mod, Bits.ofNat_add, List.append_assoc,
    wholeBytes?_append (Bits.length_ofNat 8 _), byte]

/-- Reading on from a buffer is reading its bits and then those of the text. -/
theorem decodeFrom?_eq (cs : List Char) {buffer : UInt32} {bits : Nat} (few : bits < 8)
    (fits : buffer.toNat < 2 ^ bits) :
    decodeFrom? buffer bits cs =
      (base32.bits? cs).bind fun more => wholeBytes? (Bits.ofNat bits buffer.toNat ++ more) := by
  induction cs generalizing buffer bits with
  | nil =>
    have nothing : base32.bits? [] = some [] := rfl
    have zero : buffer = 0 ↔ buffer.toNat = 0 := UInt32.toNat_inj.symm
    rw [decodeFrom?, nothing, Option.bind_some, List.append_nil, wholeBytes?_of_short few fits]
    simp only [zero]
  | cons c cs ih =>
    rw [decodeFrom?, Bits.Code.bits?_cons]
    cases read : base32.digit? c with
    | none => rfl
    | some value =>
      have digit : value < 2 ^ 5 := Bits.Code.lt_of_digit? isLawful_base32 read
      have small : buffer.toNat < 2 ^ 8 :=
        Nat.lt_trans fits (Nat.pow_lt_pow_right (by decide) few)
      have grown := toNat_shiftLeft_or small digit
      dsimp only
      generalize (buffer <<< 5) ||| UInt32.ofNat value = next at grown
      have below : next.toNat < 2 ^ (bits + 5) := by
        rw [grown, Nat.pow_add]
        omega
      have joined : Bits.ofNat (bits + 5) next.toNat =
          Bits.ofNat bits buffer.toNat ++ Bits.ofNat base32.width value := by
        have high : next.toNat / 2 ^ 5 = buffer.toNat := by omega
        have low : next.toNat % 2 ^ 5 = value := by omega
        rw [Bits.ofNat_add, high, ← Bits.ofNat_mod 5, low]
        rfl
      simp only [Option.bind_some, Option.bind_map, Function.comp_def, ← List.append_assoc,
        ← joined]
      by_cases full : 8 ≤ bits + 5
      · obtain ⟨left, split⟩ := Nat.exists_eq_add_of_le full
        have short : left < 8 := by omega
        have kept : (next &&& ((1 <<< UInt32.ofNat left) - 1)).toNat < 2 ^ left := by
          rw [toNat_and_low short]
          exact Nat.mod_lt _ (Nat.two_pow_pos left)
        rw [if_pos full, split, Nat.add_sub_cancel_left, ih short kept, Option.map_bind]
        simp only [wholeBytes?_buffer short, Function.comp_def]
      · rw [if_neg full, ih (by omega) below]

theorem decodeBase32?_eq (cs : List Char) :
    decodeBase32? cs = (base32.bits? cs).bind wholeBytes? :=
  decodeFrom?_eq cs (by decide) (by decide)

theorem decodeBase32?_encode {s : List UInt8} (whole : base32.width ∣ 8 * s.length) :
    decodeBase32? (base32.encode s) = some s := by
  rw [decodeBase32?_eq, Bits.Code.bits?_encode isLawful_base32 whole]
  simp [wholeBytes?, Bits.toBytes_ofBytes]

/-- A text without spare bits is that of the bytes it is read as. -/
theorem encode_of_decodeBase32? {cs : List Char} {s : List UInt8}
    (whole : 8 ∣ base32.width * cs.length) (h : decodeBase32? cs = some s) :
    base32.encode s = cs := by
  rw [decodeBase32?_eq] at h
  obtain ⟨bits, read, written⟩ := Option.bind_eq_some_iff.mp h
  have same : s = (Bits.toBytes bits).1 := by
    unfold wholeBytes? at written
    split at written
    · exact (Option.some.inj written).symm
    · cases written
  obtain ⟨taken, few⟩ := Bits.ofBytes_toBytes bits
  rw [← same] at taken
  have none_left : (Bits.toBytes bits).2 = [] := by
    have total := congrArg List.length taken
    rw [List.length_append, Bits.length_ofBytes, Bits.Code.length_of_bits? isLawful_base32 read]
      at total
    exact List.length_eq_zero_iff.mp (by omega)
  rw [none_left, List.append_nil] at taken
  exact Bits.Code.encode_of_bits? isLawful_base32 (taken ▸ read)

theorem isEnvelope_iff {bytes : List UInt8} :
    isEnvelope bytes = true ↔
      ∃ key, key.length = 32 ∧
        bytes = accountVersion :: key ++ lowHigh (checksum (accountVersion :: key)) := by
  cases bytes with
  | nil => simp [isEnvelope]
  | cons version rest =>
    simp only [isEnvelope, Bool.and_eq_true, beq_iff_eq]
    constructor
    · rintro ⟨⟨len, rfl⟩, sum⟩
      refine ⟨rest.take 32, by rw [List.length_take]; omega, ?_⟩
      rw [List.cons_append, ← sum, List.take_append_drop]
    · rintro ⟨key, len, same⟩
      rw [List.cons_append] at same
      obtain ⟨rfl, rfl⟩ := List.cons.inj same
      have key_eq : (key ++ lowHigh (checksum (accountVersion :: key))).take 32 = key := by
        rw [← len, List.take_left]
      have sum_eq : (key ++ lowHigh (checksum (accountVersion :: key))).drop 32 =
          lowHigh (checksum (accountVersion :: key)) := by
        rw [← len, List.drop_left]
      rw [key_eq, sum_eq]
      simp [len, lowHigh]

/-- The texts that are accepted are the addresses of keys. -/
theorem isAccount_iff {t : String} : isAccount t = true ↔ IsAccount t := by
  simp only [isAccount, Bool.and_eq_true, beq_iff_eq]
  constructor
  · rintro ⟨len, decoded⟩
    cases decode : decodeBase32? t.toList with
    | none => simp [decode] at decoded
    | some bytes =>
      rw [decode] at decoded
      obtain ⟨key, key_len, rfl⟩ := isEnvelope_iff.mp decoded
      exact ⟨key, key_len, (encode_of_decodeBase32? (by rw [len]; decide) decode).symm⟩
  · rintro ⟨key, key_len, written⟩
    have bytes_len : (accountVersion :: key ++
        lowHigh (checksum (accountVersion :: key))).length = 35 := by
      simp [key_len, lowHigh]
    have whole : base32.width ∣ 8 * (accountVersion :: key ++
        lowHigh (checksum (accountVersion :: key))).length := by
      rw [bytes_len]
      decide
    rw [written, encode]
    constructor
    · have bits := Bits.Code.length_of_bits? isLawful_base32
        (Bits.Code.bits?_encode isLawful_base32 whole)
      rw [Bits.length_ofBytes, bytes_len, show base32.width = 5 from rfl] at bits
      omega
    · simp only [decodeBase32?_encode whole]
      exact isEnvelope_iff.mpr ⟨key, key_len, rfl⟩

end Address

end Turnstile
