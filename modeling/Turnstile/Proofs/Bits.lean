import Mathlib.Algebra.BigOperators.Group.List.Basic
import Mathlib.Data.List.GetD
import Mathlib.Data.List.Nodup
import Mathlib.Data.Nat.Bitwise
import Mathlib.Tactic.Ring
import Turnstile.Bits

/-!
Bit strings and the codes built from them. A number and its lowest bits, bytes and their bits, a bit
string and its groups each stand for the other; so a code is read back as what was written, with
zeros where its last character has bits to spare, and what is read is written in one way only.
-/

namespace Turnstile.Bits

theorem length_ofNat (width n : Nat) : (ofNat width n).length = width := by
  induction width with
  | zero => rfl
  | succ width ih => rw [ofNat, List.length_cons, ih]

theorem toNat_cons (b : Bool) (bs : List Bool) :
    toNat (b :: bs) = b.toNat * 2 ^ bs.length + toNat bs := by
  have carried : ∀ (bs : List Bool) (n : Nat),
      bs.foldl (fun n b => 2 * n + b.toNat) n = n * 2 ^ bs.length + toNat bs := by
    intro bs
    induction bs with
    | nil => simp [toNat]
    | cons b bs ih =>
      intro n
      rw [toNat, List.foldl_cons, List.foldl_cons, ih, ih (2 * 0 + b.toNat), List.length_cons]
      ring
  rw [toNat, List.foldl_cons, carried, Nat.mul_zero, Nat.zero_add]

theorem toNat_lt (bs : List Bool) : toNat bs < 2 ^ bs.length := by
  induction bs with
  | nil => simp [toNat]
  | cons b bs ih =>
    have bit : b.toNat ≤ 1 := Bool.toNat_le b
    have high : b.toNat * 2 ^ bs.length ≤ 1 * 2 ^ bs.length := Nat.mul_le_mul_right _ bit
    rw [toNat_cons, List.length_cons, Nat.pow_succ]
    omega

theorem toNat_eq_zero_iff {bs : List Bool} : toNat bs = 0 ↔ bs.all (!·) = true := by
  induction bs with
  | nil => exact ⟨fun _ => rfl, fun _ => rfl⟩
  | cons b bs ih =>
    rw [toNat_cons, Nat.add_eq_zero_iff, ih, List.all_cons, Bool.and_eq_true]
    cases b <;> simp

/-- Bit strings of one length are told apart by their numbers. -/
theorem eq_of_toNat_eq {as bs : List Bool} (alike : as.length = bs.length)
    (same : toNat as = toNat bs) : as = bs := by
  induction as generalizing bs with
  | nil => exact (List.length_eq_zero_iff.mp alike.symm).symm
  | cons a as ih =>
    cases bs with
    | nil => cases alike
    | cons b bs =>
      have len : as.length = bs.length := Nat.succ.inj alike
      rw [toNat_cons, toNat_cons, len] at same
      have lowA := toNat_lt as
      have lowB := toNat_lt bs
      rw [len] at lowA
      cases a <;> cases b <;> simp only [Bool.toNat_false, Bool.toNat_true, Nat.zero_mul,
        Nat.one_mul, Nat.zero_add] at same
      · rw [ih len same]
      · omega
      · omega
      · rw [ih len (Nat.add_left_cancel same)]

theorem toNat_ofNat (width n : Nat) : toNat (ofNat width n) = n % 2 ^ width := by
  induction width with
  | zero => simp [ofNat, toNat, Nat.mod_one]
  | succ width ih =>
    have bit : (n / 2 ^ width % 2 == 1).toNat = n / 2 ^ width % 2 := by
      rcases Nat.mod_two_eq_zero_or_one (n / 2 ^ width) with even | odd
      · simp [even]
      · simp [odd]
    rw [ofNat, toNat_cons, length_ofNat, ih, Nat.pow_eq, bit, Nat.mod_pow_succ]
    ring

theorem ofNat_toNat (bs : List Bool) : ofNat bs.length (toNat bs) = bs := by
  apply eq_of_toNat_eq (length_ofNat _ _)
  rw [toNat_ofNat, Nat.mod_eq_of_lt (toNat_lt bs)]

theorem ofNat_eq_testBit (width n : Nat) :
    ofNat (width + 1) n = n.testBit width :: ofNat width n := by
  rw [ofNat, Nat.testBit_eq_decide_div_mod_eq]
  rfl

theorem ofNat_xor (width m n : Nat) :
    ofNat width (m ^^^ n) = List.zipWith (· ^^ ·) (ofNat width m) (ofNat width n) := by
  induction width with
  | zero => rfl
  | succ width ih => simp only [ofNat_eq_testBit, Nat.testBit_xor, ih, List.zipWith_cons_cons]

/-- From the lowest one upwards, the bits are those of the number. -/
theorem getD_reverse_ofNat (width n i : Nat) :
    (ofNat width n).reverse.getD i false = (decide (i < width) && n.testBit i) := by
  induction width with
  | zero => simp [ofNat]
  | succ width ih =>
    have len : (ofNat width n).reverse.length = width := by
      rw [List.length_reverse, length_ofNat]
    rw [ofNat_eq_testBit, List.reverse_cons]
    obtain low | rfl | beyond := Nat.lt_trichotomy i width
    · rw [List.getD_append _ _ _ _ (by rw [len]; exact low), ih]
      simp [low, Nat.lt_succ_of_lt low]
    · rw [List.getD_append_right _ _ _ _ (Nat.le_of_eq len), len]
      simp
    · rw [List.getD_eq_default _ _ (by rw [List.length_append, len]; exact beyond)]
      simp [Nat.not_lt.mpr (Nat.succ_le_of_lt beyond)]

/-- The highest bits, and then the lowest ones. -/
theorem ofNat_add (high low n : Nat) :
    ofNat (high + low) n = ofNat high (n / 2 ^ low) ++ ofNat low n := by
  induction high with
  | zero => simp [ofNat]
  | succ high ih =>
    rw [Nat.add_right_comm, ofNat_eq_testBit, ih, ofNat_eq_testBit, Nat.testBit_div_two_pow,
      List.cons_append, Nat.add_comm]

theorem ofNat_mod (width n : Nat) : ofNat width (n % 2 ^ width) = ofNat width n := by
  apply eq_of_toNat_eq (by rw [length_ofNat, length_ofNat])
  rw [toNat_ofNat, toNat_ofNat, Nat.mod_mod]

theorem length_ofBytes (s : List UInt8) : (ofBytes s).length = 8 * s.length := by
  induction s with
  | nil => rfl
  | cons b s ih =>
    rw [ofBytes, List.flatMap_cons, List.length_append, length_ofNat, List.length_cons]
    rw [ofBytes] at ih
    omega

theorem ofBytes_zipWith_xor {s t : List UInt8} (alike : s.length = t.length) :
    ofBytes (List.zipWith (· ^^^ ·) s t) = List.zipWith (· ^^ ·) (ofBytes s) (ofBytes t) := by
  induction s generalizing t with
  | nil => rfl
  | cons a s ih =>
    cases t with
    | nil => cases alike
    | cons b t =>
      have rest := ih (Nat.succ.inj alike)
      have same : (ofNat 8 a.toNat).length = (ofNat 8 b.toNat).length := by
        rw [length_ofNat, length_ofNat]
      rw [ofBytes] at rest
      rw [ofBytes, List.zipWith_cons_cons, List.flatMap_cons, rest, UInt8.toNat_xor, ofNat_xor,
        ← List.zipWith_append same]
      rfl

theorem toBytes_of_short {bits : List Bool} (short : bits.length < 8) :
    toBytes bits = ([], bits) := by
  match bits, short with
  | [], _ => rfl
  | [_], _ => rfl
  | [_, _], _ => rfl
  | [_, _, _], _ => rfl
  | [_, _, _, _], _ => rfl
  | [_, _, _, _, _], _ => rfl
  | [_, _, _, _, _, _], _ => rfl
  | [_, _, _, _, _, _, _], _ => rfl

theorem toBytes_append {g : List Bool} (full : g.length = 8) (bits : List Bool) :
    toBytes (g ++ bits) = (UInt8.ofNat (toNat g) :: (toBytes bits).1, (toBytes bits).2) := by
  match g, full with
  | [_, _, _, _, _, _, _, _], _ => rfl

/-- Whole bytes are read back from their bits, and fewer than eight behind them are left over. -/
theorem toBytes_ofBytes_append (s : List UInt8) {bits : List Bool} (short : bits.length < 8) :
    toBytes (ofBytes s ++ bits) = (s, bits) := by
  induction s with
  | nil => exact toBytes_of_short short
  | cons b s ih =>
    have byte : UInt8.ofNat (toNat (ofNat 8 b.toNat)) = b := by
      rw [toNat_ofNat, Nat.mod_eq_of_lt b.toNat_lt, UInt8.ofNat_toNat]
    rw [ofBytes, List.flatMap_cons, List.append_assoc, toBytes_append (length_ofNat 8 _), byte,
      ← ofBytes, ih]

theorem toBytes_ofBytes (s : List UInt8) : toBytes (ofBytes s) = (s, []) := by
  have nothing_left : toBytes (ofBytes s ++ []) = (s, []) :=
    toBytes_ofBytes_append s (by decide)
  rwa [List.append_nil] at nothing_left

/-- Bits are taken into bytes in order, and fewer than eight are left over. -/
theorem ofBytes_toBytes (bits : List Bool) :
    ofBytes (toBytes bits).1 ++ (toBytes bits).2 = bits ∧ (toBytes bits).2.length < 8 := by
  induction len : bits.length using Nat.strong_induction_on generalizing bits with
  | _ n ih =>
    by_cases short : bits.length < 8
    · rw [toBytes_of_short short]
      exact ⟨rfl, short⟩
    · have full : (bits.take 8).length = 8 := by
        rw [List.length_take]
        omega
      have byte : ofNat 8 (UInt8.ofNat (toNat (bits.take 8))).toNat = bits.take 8 := by
        have below := toNat_lt (bits.take 8)
        have same := ofNat_toNat (bits.take 8)
        rw [full] at below same
        rw [UInt8.toNat_ofNat_of_lt' below, same]
      have fewer : (bits.drop 8).length < n := by
        rw [List.length_drop]
        omega
      obtain ⟨whole, few⟩ := ih _ fewer (bits.drop 8) rfl
      have parted := toBytes_append full (bits.drop 8)
      rw [List.take_append_drop] at parted
      rw [parted]
      refine ⟨?_, few⟩
      rw [ofBytes, List.flatMap_cons, byte, ← ofBytes, List.append_assoc, whole,
        List.take_append_drop]

/-- Groups that are full come one behind the other. -/
theorem groups_append {width : Nat} (pos : 0 < width) {g : List Bool} (full : g.length = width)
    (bs : List Bool) : groups width (g ++ bs) = g :: groups width bs := by
  have some_bits : ¬(width = 0 ∨ g ++ bs = []) := by
    rintro (none_wide | nothing)
    · omega
    · rw [List.append_eq_nil_iff] at nothing
      rw [nothing.1] at full
      exact absurd full (by simp; omega)
  rw [groups, if_neg some_bits]
  subst full
  simp only [List.take_left, List.drop_left, Nat.sub_self, List.replicate_zero, List.append_nil]

theorem groups_flatten {width : Nat} (pos : 0 < width) {gs : List (List Bool)}
    (full : ∀ g ∈ gs, g.length = width) : groups width gs.flatten = gs := by
  induction gs with
  | nil => rw [List.flatten_nil, groups, if_pos (.inr rfl)]
  | cons g gs ih =>
    obtain ⟨here, later⟩ := List.forall_mem_cons.mp full
    rw [List.flatten_cons, groups_append pos here, ih later]

/-- Groups are full, and hold the bits in order and behind them fewer zeros than fill a group. -/
theorem exists_flatten_groups {width : Nat} (pos : 0 < width) (bs : List Bool) :
    (∀ g ∈ groups width bs, g.length = width) ∧
      ∃ k < width, (groups width bs).flatten = bs ++ List.replicate k false := by
  fun_induction groups width bs with
  | case1 bs done =>
    obtain rfl : bs = [] := done.resolve_left (by omega)
    exact ⟨nofun, 0, pos, rfl⟩
  | case2 bs more g ih =>
    obtain ⟨full, k, few, rest⟩ := ih
    have taken : g.length = min width bs.length := List.length_take
    refine ⟨List.forall_mem_cons.mpr ⟨?_, full⟩, ?_⟩
    · rw [List.length_append, List.length_replicate, taken]
      omega
    -- Only the last group is filled up, and no bits are left behind it.
    by_cases enough : width ≤ bs.length
    · refine ⟨k, few, ?_⟩
      have filled : width - g.length = 0 := by omega
      rw [List.flatten_cons, rest, filled, List.replicate_zero, List.append_nil,
        ← List.append_assoc, List.take_append_drop]
    · have nothing : bs.drop width = [] := List.drop_eq_nil_of_le (by omega)
      have last : g = bs := List.take_of_length_le (by omega)
      have some_bits : 0 < bs.length := List.length_pos_iff.mpr (not_or.mp more).2
      refine ⟨width - bs.length, by omega, ?_⟩
      rw [List.flatten_cons, nothing, groups, if_pos (.inr rfl), last, List.flatten_nil,
        List.append_nil]

namespace Code

/-- Every group of bits has a character of its own. -/
structure IsLawful (code : Code) : Prop where
  pos : 0 < code.width
  enough : code.alphabet.length = 2 ^ code.width
  distinct : code.alphabet.Nodup

variable {code : Code}

theorem digit?_symbol (lawful : code.IsLawful) {g : List Bool} (full : g.length = code.width) :
    code.digit? (code.symbol g) = some (toNat g) := by
  have inside : toNat g < code.alphabet.length := by
    rw [lawful.enough, ← full]
    exact toNat_lt g
  rw [digit?, symbol, List.getD_eq_getElem _ _ inside, List.idxOf?_eq_some_iff]
  refine ⟨inside, rfl, fun j earlier same => ?_⟩
  exact earlier.ne (lawful.distinct.getElem_inj_iff.mp same)

theorem symbol_of_digit? (lawful : code.IsLawful) {c : Char} {d : Nat}
    (h : code.digit? c = some d) : code.symbol (ofNat code.width d) = c := by
  obtain ⟨inside, found, -⟩ := List.idxOf?_eq_some_iff.mp h
  have below : d < 2 ^ code.width := lawful.enough ▸ inside
  rw [symbol, toNat_ofNat, Nat.mod_eq_of_lt below, List.getD_eq_getElem _ _ inside, found]

theorem lt_of_digit? (lawful : code.IsLawful) {c : Char} {d : Nat} (h : code.digit? c = some d) :
    d < 2 ^ code.width := by
  obtain ⟨inside, -, -⟩ := List.idxOf?_eq_some_iff.mp h
  exact lawful.enough ▸ inside

theorem digit?_inj (lawful : code.IsLawful) {b c : Char} {d : Nat} (hb : code.digit? b = some d)
    (hc : code.digit? c = some d) : b = c := by
  rw [← symbol_of_digit? lawful hb, symbol_of_digit? lawful hc]

theorem bits?_cons (c : Char) (cs : List Char) :
    code.bits? (c :: cs) =
      (code.digit? c).bind fun d => (code.bits? cs).map (ofNat code.width d ++ ·) := by
  simp only [bits?, List.mapM_cons]
  cases code.digit? c with
  | none => rfl
  | some d => cases cs.mapM code.digit? <;> rfl

/-- A text is read part by part. -/
theorem bits?_append (as bs : List Char) :
    code.bits? (as ++ bs) = (code.bits? as).bind fun a => (code.bits? bs).map (a ++ ·) := by
  induction as with
  | nil =>
    have nothing : code.bits? [] = some [] := rfl
    simp [nothing]
  | cons c as ih =>
    rw [List.cons_append, bits?_cons, ih, bits?_cons]
    cases code.digit? c <;> cases code.bits? as <;> cases code.bits? bs <;> simp

/-- Characters of full groups are read as the bits of these groups. -/
theorem bits?_map_symbol (lawful : code.IsLawful) {gs : List (List Bool)}
    (full : ∀ g ∈ gs, g.length = code.width) :
    code.bits? (gs.map code.symbol) = some gs.flatten := by
  have digits : (gs.map code.symbol).mapM code.digit? = some (gs.map toNat) := by
    induction gs with
    | nil => rfl
    | cons g gs ih =>
      obtain ⟨here, later⟩ := List.forall_mem_cons.mp full
      simp [digit?_symbol lawful here, ih later]
  have back : ∀ g ∈ gs, ofNat code.width (toNat g) = g := by
    intro g mem
    have same := ofNat_toNat g
    rwa [full g mem] at same
  rw [bits?, digits, Option.map_some, List.flatMap_map, List.flatMap_def, List.map_congr_left back,
    List.map_id']

/-- What is read are full groups, each written by its character. -/
theorem exists_groups_of_bits? (lawful : code.IsLawful) {cs : List Char} {bits : List Bool}
    (h : code.bits? cs = some bits) :
    ∃ gs : List (List Bool), (∀ g ∈ gs, g.length = code.width) ∧ gs.flatten = bits ∧
      gs.map code.symbol = cs := by
  obtain ⟨ds, digits, rfl⟩ := Option.map_eq_some_iff.mp h
  refine ⟨ds.map (ofNat code.width), ?_, List.flatMap_def.symm, ?_⟩
  · intro g mem
    obtain ⟨d, -, rfl⟩ := List.mem_map.mp mem
    exact length_ofNat _ _
  · clear h
    induction cs generalizing ds with
    | nil =>
      cases digits
      rfl
    | cons c cs ih =>
      simp only [List.mapM_cons, Option.bind_eq_bind, Option.bind_eq_some_iff] at digits
      obtain ⟨d, digit, ds, rest, same⟩ := digits
      obtain rfl := Option.some.inj same
      simp only [List.map_cons, symbol_of_digit? lawful digit, ih ds rest]

/-- Any text is read as the bits of its bytes, and behind them fewer zeros than one character
has. -/
theorem exists_bits?_encode (lawful : code.IsLawful) (s : List UInt8) :
    ∃ k < code.width, code.bits? (code.encode s) = some (ofBytes s ++ List.replicate k false) := by
  obtain ⟨full, k, few, same⟩ := exists_flatten_groups lawful.pos (ofBytes s)
  refine ⟨k, few, ?_⟩
  rw [encode, bits?_map_symbol lawful full, same]

theorem mem_alphabet_of_mem_encode (lawful : code.IsLawful) {s : List UInt8} {c : Char}
    (mem : c ∈ code.encode s) : c ∈ code.alphabet := by
  obtain ⟨full, -⟩ := exists_flatten_groups lawful.pos (ofBytes s)
  obtain ⟨g, group, rfl⟩ := List.mem_map.mp mem
  have inside : toNat g < code.alphabet.length := by
    rw [lawful.enough, ← full g group]
    exact toNat_lt g
  rw [symbol, List.getD_eq_getElem _ _ inside]
  exact List.getElem_mem inside

theorem encode_of_bits? (lawful : code.IsLawful) {cs : List Char} {s : List UInt8}
    (h : code.bits? cs = some (ofBytes s)) : code.encode s = cs := by
  obtain ⟨gs, full, same, written⟩ := exists_groups_of_bits? lawful h
  rw [encode, ← same, groups_flatten lawful.pos full, written]

/-- There are as many bits as the characters have together. -/
theorem length_of_bits? (lawful : code.IsLawful) {cs : List Char} {bits : List Bool}
    (h : code.bits? cs = some bits) : bits.length = code.width * cs.length := by
  obtain ⟨gs, full, rfl, rfl⟩ := exists_groups_of_bits? lawful h
  rw [List.length_flatten, List.map_congr_left full, List.map_const', List.sum_replicate,
    List.length_map, Nat.nsmul_eq_mul, Nat.mul_comm]

/-- Bytes whose bits fill their characters come back without zeros behind them. -/
theorem bits?_encode (lawful : code.IsLawful) {s : List UInt8}
    (whole : code.width ∣ 8 * s.length) : code.bits? (code.encode s) = some (ofBytes s) := by
  obtain ⟨k, few, read⟩ := exists_bits?_encode lawful s
  have total := length_of_bits? lawful read
  rw [List.length_append, length_ofBytes, List.length_replicate] at total
  have divides : code.width ∣ k :=
    (Nat.dvd_add_right whole).mp (total ▸ Nat.dvd_mul_right code.width _)
  obtain rfl : k = 0 := Nat.eq_zero_of_dvd_of_lt divides few
  rw [read, List.replicate_zero, List.append_nil]

end Code

end Turnstile.Bits
