import Turnstile.Text.Utf8

namespace Turnstile.Utf8

/-- What the first byte of two, of three and of four leaves to be read. -/
theorem step_two : ∀ k < 32, 2 ≤ k →
    step none (UInt8.ofNat (k + 0xC0)) = .more ⟨0, 0x80, 0xBF, k⟩ := by decide

theorem step_three : ∀ k < 16, step none (UInt8.ofNat (k + 0xE0)) =
    .more ⟨1, if k = 0 then 0xA0 else 0x80, if k = 0xD then 0x9F else 0xBF, k⟩ := by decide

theorem step_four : ∀ k < 5, step none (UInt8.ofNat (k + 0xF0)) =
    .more ⟨2, if k = 0 then 0x90 else 0x80, if k = 4 then 0x8F else 0xBF, k⟩ := by decide

theorem step_one {n : Nat} (h : n < 0x80) :
    step none (UInt8.ofNat n) = .emit (Char.ofNat n) := by
  have toNat : (UInt8.ofNat n).toNat = n := by
    rw [UInt8.toNat_ofNat']
    omega
  have small : UInt8.ofNat n < 0x80 := by
    rw [UInt8.lt_iff_toNat_lt, toNat]
    exact h
  rw [step, first, if_pos small, toNat]

theorem step_next {p : Partial} {k : Nat} (h : k < 64) (low : p.low.toNat ≤ k + 0x80)
    (high : k + 0x80 ≤ p.high.toNat) :
    step (some p) (UInt8.ofNat (k + 0x80)) =
      match p.owed with
      | 0 => .emit (Char.ofNat (p.bits * 64 + k))
      | n + 1 => .more ⟨n, 0x80, 0xBF, p.bits * 64 + k⟩ := by
  have toNat : (UInt8.ofNat (k + 0x80)).toNat = k + 0x80 := by
    rw [UInt8.toNat_ofNat']
    omega
  have inRange : (p.low ≤ UInt8.ofNat (k + 0x80) && UInt8.ofNat (k + 0x80) ≤ p.high) = true := by
    simp only [Bool.and_eq_true, decide_eq_true_eq, UInt8.le_iff_toNat_le, toNat]
    exact ⟨low, high⟩
  have unfolded : step (some p) (UInt8.ofNat (k + 0x80)) =
      if p.low ≤ UInt8.ofNat (k + 0x80) && UInt8.ofNat (k + 0x80) ≤ p.high then
        match p.owed with
        | 0 => .emit (Char.ofNat (p.bits * 64 + ((UInt8.ofNat (k + 0x80)).toNat - 0x80)))
        | n + 1 =>
          .more ⟨n, 0x80, 0xBF, p.bits * 64 + ((UInt8.ofNat (k + 0x80)).toNat - 0x80)⟩
      else .refuse := rfl
  rw [unfolded, if_pos inRange, toNat, Nat.add_sub_cancel]

theorem charsFrom_emit {p : Option Partial} {b : UInt8} {c : Char} (h : step p b = .emit c)
    (s : List UInt8) : charsFrom p (b :: s) = (charsFrom none s).map (c :: ·) := by
  cases p <;> simp [charsFrom, h]

theorem charsFrom_more {p : Option Partial} {b : UInt8} {q : Partial} (h : step p b = .more q)
    (s : List UInt8) : charsFrom p (b :: s) = charsFrom (some q) s := by
  cases p <;> simp [charsFrom, h]

/-- The bytes that a character is written with, by their number. Overlong forms, surrogates and what
lies beyond the last code point are kept out by the second byte. -/
inductive Written : Char → List UInt8 → Prop
  | one {a : Nat} (ha : a < 0x80) : Written (Char.ofNat a) [UInt8.ofNat a]
  | two {k a : Nat} (hk : 2 ≤ k) (hk' : k < 32) (ha : a < 64) :
    Written (Char.ofNat (k * 64 + a)) [UInt8.ofNat (k + 0xC0), UInt8.ofNat (a + 0x80)]
  | three {k a b : Nat} (hk : k < 16) (ha : a < 64) (hb : b < 64) (long : k = 0 → 0x20 ≤ a)
    (scalar : k = 0xD → a < 0x20) :
    Written (Char.ofNat ((k * 64 + a) * 64 + b))
      [UInt8.ofNat (k + 0xE0), UInt8.ofNat (a + 0x80), UInt8.ofNat (b + 0x80)]
  | four {k a b d : Nat} (hk : k < 5) (ha : a < 64) (hb : b < 64) (hd : d < 64)
    (long : k = 0 → 0x10 ≤ a) (least : k = 4 → a < 0x10) :
    Written (Char.ofNat (((k * 64 + a) * 64 + b) * 64 + d))
      [UInt8.ofNat (k + 0xF0), UInt8.ofNat (a + 0x80), UInt8.ofNat (b + 0x80),
        UInt8.ofNat (d + 0x80)]

theorem val_ofNat {v : Nat} (valid : v < 0xD800 ∨ 0xDFFF < v ∧ v < 0x110000) :
    (Char.ofNat v).val.toNat = v := by
  have h : v.isValidChar := valid
  rw [Char.ofNat, dif_pos h]
  rfl

theorem Written.eq_encodeChar {c : Char} {bs : List UInt8} (h : Written c bs) :
    bs = String.utf8EncodeChar c := by
  cases h with
  | one ha =>
    rw [String.utf8EncodeChar, val_ofNat (by omega), if_pos (by omega)]
  | @two k a hk hk' ha =>
    rw [String.utf8EncodeChar, val_ofNat (by omega), if_neg (by omega), if_pos (by omega)]
    simp only [show (k * 64 + a) / 64 % 0x20 = k by omega, show (k * 64 + a) % 0x40 = a by omega]
  | @three k a b hk ha hb long scalar =>
    generalize hv : (k * 64 + a) * 64 + b = v
    rw [String.utf8EncodeChar, val_ofNat (by omega), if_neg (by omega), if_neg (by omega),
      if_pos (by omega)]
    simp only [show v / 4096 % 0x10 = k by omega, show v / 64 % 0x40 = a by omega,
      show v % 0x40 = b by omega]
  | @four k a b d hk ha hb hd long least =>
    generalize hv : ((k * 64 + a) * 64 + b) * 64 + d = v
    rw [String.utf8EncodeChar, val_ofNat (by omega), if_neg (by omega), if_neg (by omega),
      if_neg (by omega)]
    simp only [show v / 262144 % 0x08 = k by omega, show v / 4096 % 0x40 = a by omega,
      show v / 64 % 0x40 = b by omega, show v % 0x40 = d by omega]

theorem written_encodeChar (c : Char) : Written c (String.utf8EncodeChar c) := by
  have valid : c.val.toNat < 0xD800 ∨ 0xDFFF < c.val.toNat ∧ c.val.toNat < 0x110000 := c.valid
  have self : Char.ofNat c.val.toNat = c := Char.ofNat_toNat c
  suffices h : ∃ bs, Written (Char.ofNat c.val.toNat) bs by
    obtain ⟨bs, h⟩ := h
    rw [self] at h
    exact h.eq_encodeChar ▸ h
  generalize c.val.toNat = v at valid
  by_cases one : v < 0x80
  · exact ⟨_, .one one⟩
  by_cases two : v < 0x800
  · rw [show v = v / 64 * 64 + v % 64 by omega]
    exact ⟨_, .two (by omega) (by omega) (by omega)⟩
  by_cases three : v < 0x10000
  · rw [show v = (v / 4096 * 64 + v / 64 % 64) * 64 + v % 64 by omega]
    exact ⟨_, .three (by omega) (by omega) (by omega) (by omega) (by omega)⟩
  · rw [show v = ((v / 262144 * 64 + v / 4096 % 64) * 64 + v / 64 % 64) * 64 + v % 64 by omega]
    exact ⟨_, .four (by omega) (by omega) (by omega) (by omega) (by omega) (by omega)⟩

/-- A character of ASCII is one byte. -/
theorem encodeChar_of_lt {c : Char} (h : c.toNat < 0x80) :
    String.utf8EncodeChar c = [UInt8.ofNat c.toNat] := by
  have written := (Written.one h).eq_encodeChar
  rw [Char.ofNat_toNat] at written
  exact written.symm

theorem encodeChars_cons_of_lt {c : Char} (h : c.toNat < 0x80) (cs : List Char) :
    encodeChars (c :: cs) = UInt8.ofNat c.toNat :: encodeChars cs := by
  rw [encodeChars_cons, encodeChar_of_lt h, List.singleton_append]

/-- The bytes of any other character lie beyond ASCII. -/
theorem Written.high {c : Char} {bs : List UInt8} (h : Written c bs) (far : 0x80 ≤ c.toNat) :
    ∀ b ∈ bs, 0x80 ≤ b.toNat := by
  cases h with
  | one ha =>
    have self := val_ofNat (v := _) (.inl (Nat.lt_trans ha (by omega)))
    rw [Char.toNat, self] at far
    omega
  | two hk hk' ha =>
    simp only [List.forall_mem_cons, UInt8.toNat_ofNat']
    exact ⟨by omega, by omega, nofun⟩
  | three hk ha hb long scalar =>
    simp only [List.forall_mem_cons, UInt8.toNat_ofNat']
    exact ⟨by omega, by omega, by omega, nofun⟩
  | four hk ha hb hd long least =>
    simp only [List.forall_mem_cons, UInt8.toNat_ofNat']
    exact ⟨by omega, by omega, by omega, by omega, nofun⟩

/-- The byte of a character of ASCII stands for nothing but that character. -/
theorem notMem_encodeChars {c : Char} (ascii : c.toNat < 0x80) {cs : List Char} (h : c ∉ cs) :
    UInt8.ofNat c.toNat ∉ encodeChars cs := by
  have toNat : (UInt8.ofNat c.toNat).toNat = c.toNat := by
    rw [UInt8.toNat_ofNat']
    omega
  induction cs with
  | nil => exact List.not_mem_nil
  | cons d cs ih =>
    obtain ⟨other, later⟩ := not_or.mp (mt List.mem_cons.mpr h)
    rw [encodeChars_cons, List.mem_append]
    rintro (mem | mem)
    · by_cases small : d.toNat < 0x80
      · rw [encodeChar_of_lt small, List.mem_singleton] at mem
        have same := congrArg UInt8.toNat mem
        rw [toNat, UInt8.toNat_ofNat'] at same
        exact other (Char.toNat_inj.mp (by omega))
      · have high := (written_encodeChar d).high (Nat.not_lt.mp small) _ mem
        omega
    · exact ih later mem

theorem toNat_ite_le {p : Prop} [Decidable p] {u v : UInt8} {n : Nat} (yes : p → u.toNat ≤ n)
    (no : v.toNat ≤ n) : (if p then u else v).toNat ≤ n := by
  by_cases h : p
  · rw [if_pos h]
    exact yes h
  · rw [if_neg h]
    exact no

theorem le_toNat_ite {p : Prop} [Decidable p] {u v : UInt8} {n : Nat} (yes : p → n ≤ u.toNat)
    (no : n ≤ v.toNat) : n ≤ (if p then u else v).toNat := by
  by_cases h : p
  · rw [if_pos h]
    exact yes h
  · rw [if_neg h]
    exact no

theorem Written.charsFrom_append {c : Char} {bs : List UInt8} (h : Written c bs)
    (s : List UInt8) : charsFrom none (bs ++ s) = (charsFrom none s).map (c :: ·) := by
  cases h with
  | one ha => rw [List.cons_append, List.nil_append, charsFrom_emit (step_one ha)]
  | @two k a hk hk' ha =>
    have last := step_next (p := ⟨0, 0x80, 0xBF, k⟩) ha (by simp) (by simp; omega)
    simp only [List.cons_append, List.nil_append]
    rw [charsFrom_more (step_two k hk' hk), charsFrom_emit last]
  | @three k a b hk ha hb long scalar =>
    have low : (if k = 0 then 0xA0 else 0x80 : UInt8).toNat ≤ a + 0x80 :=
      toNat_ite_le (fun zero => Nat.add_le_add_right (long zero) 0x80) (Nat.le_add_left 0x80 a)
    have high : a + 0x80 ≤ (if k = 0xD then 0x9F else 0xBF : UInt8).toNat :=
      le_toNat_ite (fun last => Nat.add_le_add_right (Nat.le_of_lt_succ (scalar last)) 0x80)
        (Nat.add_le_add_right (Nat.le_of_lt_succ ha) 0x80)
    have mid := step_next
      (p := ⟨1, if k = 0 then 0xA0 else 0x80, if k = 0xD then 0x9F else 0xBF, k⟩) ha low high
    have last := step_next (p := ⟨0, 0x80, 0xBF, k * 64 + a⟩) hb (by simp) (by simp; omega)
    simp only [List.cons_append, List.nil_append]
    rw [charsFrom_more (step_three k hk), charsFrom_more mid, charsFrom_emit last]
  | @four k a b d hk ha hb hd long least =>
    have low : (if k = 0 then 0x90 else 0x80 : UInt8).toNat ≤ a + 0x80 :=
      toNat_ite_le (fun zero => Nat.add_le_add_right (long zero) 0x80) (Nat.le_add_left 0x80 a)
    have high : a + 0x80 ≤ (if k = 4 then 0x8F else 0xBF : UInt8).toNat :=
      le_toNat_ite (fun last => Nat.add_le_add_right (Nat.le_of_lt_succ (least last)) 0x80)
        (Nat.add_le_add_right (Nat.le_of_lt_succ ha) 0x80)
    have second := step_next
      (p := ⟨2, if k = 0 then 0x90 else 0x80, if k = 4 then 0x8F else 0xBF, k⟩) ha low high
    have third := step_next (p := ⟨1, 0x80, 0xBF, k * 64 + a⟩) hb (by simp) (by simp; omega)
    have last := step_next (p := ⟨0, 0x80, 0xBF, (k * 64 + a) * 64 + b⟩) hd (by simp)
      (by simp; omega)
    simp only [List.cons_append, List.nil_append]
    rw [charsFrom_more (step_four k hk), charsFrom_more second, charsFrom_more third,
      charsFrom_emit last]

/-- The bytes of a text decode to it. -/
theorem chars?_encodeChars (cs : List Char) : chars? (encodeChars cs) = some cs := by
  rw [chars?]
  induction cs with
  | nil => rfl
  | cons c cs ih =>
    rw [encodeChars_cons, (written_encodeChar c).charsFrom_append, ih, Option.map_some]

theorem text?_encode (t : String) : text? (encode t) = some t := by
  rw [text?, encode, chars?_encodeChars, Option.map_some, String.ofList_toList]

/-- Well-formed bytes get no mark. -/
theorem lossyFrom_of_charsFrom {p : Option Partial} {s : List UInt8} {cs : List Char}
    (h : charsFrom p s = some cs) : lossyFrom p s = cs := by
  fun_induction charsFrom p s generalizing cs with
  | case1 => cases h; rfl
  | case2 => cases h
  | case3 p b s c here ih =>
    obtain ⟨rest, decoded, rfl⟩ := Option.map_eq_some_iff.mp h
    cases p <;> simp [lossyFrom, here, ih decoded]
  | case4 p b s q here ih =>
    cases p <;> simp [lossyFrom, here, ih h]
  | case5 => cases h

theorem lossy_encode (t : String) : lossy (encode t) = t := by
  rw [lossy, encode, lossyFrom_of_charsFrom (chars?_encodeChars t.toList), String.ofList_toList]

theorem step_none_refuse : ∀ n < 256, 0x80 ≤ n → n < 0xC2 ∨ 0xF4 < n →
    step none (UInt8.ofNat n) = .refuse := by decide +kernel

/-- The bytes that a character may start with. -/
theorem step_none_cases (b : UInt8) :
    step none b = .refuse ∨ (∃ a, a < 0x80 ∧ b = UInt8.ofNat a) ∨
    (∃ k, 2 ≤ k ∧ k < 32 ∧ b = UInt8.ofNat (k + 0xC0)) ∨
    (∃ k, k < 16 ∧ b = UInt8.ofNat (k + 0xE0)) ∨ (∃ k, k < 5 ∧ b = UInt8.ofNat (k + 0xF0)) := by
  have bound : b.toNat < 256 := b.toNat_lt
  have self : b = UInt8.ofNat b.toNat := UInt8.ofNat_toNat.symm
  generalize b.toNat = n at bound self
  subst self
  by_cases one : n < 0x80
  · exact .inr (.inl ⟨n, one, rfl⟩)
  by_cases refused : n < 0xC2 ∨ 0xF4 < n
  · exact .inl (step_none_refuse n bound (by omega) refused)
  by_cases two : n < 0xE0
  · exact .inr (.inr (.inl ⟨n - 0xC0, by omega, by omega, by congr; omega⟩))
  by_cases three : n < 0xF0
  · exact .inr (.inr (.inr (.inl ⟨n - 0xE0, by omega, by congr; omega⟩)))
  · exact .inr (.inr (.inr (.inr ⟨n - 0xF0, by omega, by congr; omega⟩)))

/-- The bytes that a character may go on with. -/
theorem step_some_cases {p : Partial} (tail : 0x80 ≤ p.low.toNat ∧ p.high.toNat ≤ 0xBF)
    (b : UInt8) :
    step (some p) b = .refuse ∨ ∃ k, k < 64 ∧ p.low.toNat ≤ k + 0x80 ∧ k + 0x80 ≤ p.high.toNat ∧
      b = UInt8.ofNat (k + 0x80) := by
  by_cases inRange : p.low ≤ b ∧ b ≤ p.high
  · obtain ⟨low, high⟩ := inRange
    rw [UInt8.le_iff_toNat_le] at low high
    have self : b = UInt8.ofNat b.toNat := UInt8.ofNat_toNat.symm
    generalize b.toNat = n at low high self
    exact .inr ⟨n - 0x80, by omega, by omega, by omega, by rw [self]; congr; omega⟩
  · left
    simp [step, Partial.next, inRange]

theorem charsFrom_refuse {p : Option Partial} {b : UInt8} (h : step p b = .refuse)
    (s : List UInt8) : charsFrom p (b :: s) = none := by
  cases p <;> simp [charsFrom, h]

/-- Inside a character, what decodes goes on with a byte of its range. -/
theorem cons_of_charsFrom_some {p : Partial} (tail : 0x80 ≤ p.low.toNat ∧ p.high.toNat ≤ 0xBF)
    {s : List UInt8} {cs : List Char} (h : charsFrom (some p) s = some cs) :
    ∃ k s', k < 64 ∧ p.low.toNat ≤ k + 0x80 ∧ k + 0x80 ≤ p.high.toNat ∧
      s = UInt8.ofNat (k + 0x80) :: s' := by
  cases s with
  | nil => cases h
  | cons b s =>
    obtain refused | ⟨k, small, low, high, rfl⟩ := step_some_cases tail b
    · rw [charsFrom_refuse refused] at h
      cases h
    · exact ⟨k, s, small, low, high, rfl⟩

/-- What decodes starts with the bytes of a character, unless it is empty. -/
theorem written_of_charsFrom {s : List UInt8} {cs : List Char} (nonempty : s ≠ [])
    (h : charsFrom none s = some cs) : ∃ c bs s', s = bs ++ s' ∧ Written c bs := by
  obtain ⟨b, s, rfl⟩ := List.exists_cons_of_ne_nil nonempty
  obtain refused | ⟨a, one, rfl⟩ | ⟨k, two, two', rfl⟩ | ⟨k, three, rfl⟩ | ⟨k, four, rfl⟩ :=
    step_none_cases b
  · rw [charsFrom_refuse refused] at h
    cases h
  · exact ⟨_, _, s, rfl, .one one⟩
  · rw [charsFrom_more (step_two k two' two)] at h
    obtain ⟨a, s, ha, -, -, rfl⟩ := cons_of_charsFrom_some (by simp) h
    exact ⟨_, _, s, rfl, .two two two' ha⟩
  · rw [charsFrom_more (step_three k three)] at h
    obtain ⟨a, s, ha, low, high, rfl⟩ := cons_of_charsFrom_some
      (by constructor <;> simp only <;> split <;> simp) h
    rw [charsFrom_more (step_next ha low high)] at h
    obtain ⟨b, s, hb, -, -, rfl⟩ := cons_of_charsFrom_some (by simp) h
    refine ⟨_, _, s, rfl, .three three ha hb ?_ ?_⟩
    · rintro rfl
      simp at low
      omega
    · rintro rfl
      simp at high
      omega
  · rw [charsFrom_more (step_four k four)] at h
    obtain ⟨a, s, ha, low, high, rfl⟩ := cons_of_charsFrom_some
      (by constructor <;> simp only <;> split <;> simp) h
    rw [charsFrom_more (step_next ha low high)] at h
    obtain ⟨b, s, hb, low', high', rfl⟩ := cons_of_charsFrom_some (by simp) h
    rw [charsFrom_more (step_next hb low' high')] at h
    obtain ⟨d, s, hd, -, -, rfl⟩ := cons_of_charsFrom_some (by simp) h
    refine ⟨_, _, s, rfl, .four four ha hb hd ?_ ?_⟩
    · rintro rfl
      simp at low
      omega
    · rintro rfl
      simp at high
      omega

/-- Well-formed bytes are those of the text that they decode to. -/
theorem encodeChars_of_chars? {s : List UInt8} {cs : List Char} (h : chars? s = some cs) :
    encodeChars cs = s := by
  induction cs generalizing s with
  | nil =>
    by_cases nonempty : s = []
    · rw [nonempty, encodeChars_nil]
    · obtain ⟨c, bs, s, rfl, written⟩ := written_of_charsFrom nonempty h
      rw [chars?, written.charsFrom_append] at h
      simp at h
  | cons c cs ih =>
    have nonempty : s ≠ [] := by
      rintro rfl
      cases h
    obtain ⟨c', bs, s, rfl, written⟩ := written_of_charsFrom nonempty h
    rw [chars?, written.charsFrom_append] at h
    obtain ⟨rest, decoded, same⟩ := Option.map_eq_some_iff.mp h
    obtain ⟨rfl, rfl⟩ := List.cons.inj same
    rw [encodeChars_cons, ih decoded, ← written.eq_encodeChar]

theorem encode_of_text? {s : List UInt8} {t : String} (h : text? s = some t) : encode t = s := by
  obtain ⟨cs, decoded, rfl⟩ := Option.map_eq_some_iff.mp h
  rw [encode, String.toList_ofList, encodeChars_of_chars? decoded]

end Turnstile.Utf8
