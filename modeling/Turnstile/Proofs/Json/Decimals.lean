import Turnstile.Binary64.Notation
import Turnstile.Proofs.Binary64.Shortest
import Turnstile.Proofs.Json.RoundTrip

namespace Turnstile

open Json (natChars intChars decimalChars doubleChars)

namespace Decimal

def digitsValue (cs : List Char) : Nat := Ascii.ofDigits (cs.map fun c => c.toNat - 0x30)

theorem digitsValue_natChars (n : Nat) : digitsValue (natChars n) = n := Json.ofDigits_natDigits n

theorem digitsValue_zeros_append (k : Nat) (cs : List Char) :
    digitsValue (List.replicate k '0' ++ cs) = digitsValue cs := by
  induction k with
  | zero => rfl
  | succ k ih => exact ih

theorem digitsValue_append_zeros (cs : List Char) (k : Nat) :
    digitsValue (cs ++ List.replicate k '0') = digitsValue cs * 10 ^ k := by
  induction k with
  | zero => simp
  | succ k ih =>
    rw [List.replicate_succ', ← List.append_assoc, Nat.pow_succ, ← Nat.mul_assoc, ← ih]
    simp [digitsValue, Ascii.ofDigits]

theorem natural?_of_isDigit {cs : List Char} (some_digit : cs ≠ [])
    (digits : ∀ c ∈ cs, c.isDigit = true) : natural? cs = some (digitsValue cs) := by
  rw [natural?, if_neg (by simpa using some_digit), Ascii.digits?_of_isDigit digits]
  rfl

/-- Digits are taken up to what is none. -/
theorem splitDigits_append {ds cs : List Char} (digits : ∀ c ∈ ds, c.isDigit = true)
    (parted : ∀ c ∈ cs.head?, c.isDigit = false) : splitDigits (ds ++ cs) = (ds, cs) := by
  have front : cs.takeWhile Char.isDigit = [] ∧ cs.dropWhile Char.isDigit = cs := by
    cases cs with
    | nil => exact ⟨rfl, rfl⟩
    | cons c cs => simp [parted c rfl]
  rw [splitDigits, List.takeWhile_append_of_pos digits, List.dropWhile_append_of_pos digits,
    front.1, front.2, List.append_nil]

section Magnitude

variable (ws fs cs : List Char) {e : Int}

/-- Digits with a point among them. -/
theorem magnitude?_point (some_digit : ws ++ fs ≠ []) (whole : ∀ c ∈ ws, c.isDigit = true)
    (fraction : ∀ c ∈ fs, c.isDigit = true) (parted : ∀ c ∈ cs.head?, c.isDigit = false)
    (power : power? cs = some e) :
    magnitude? (ws ++ '.' :: (fs ++ cs)) = some ⟨digitsValue (ws ++ fs), e - fs.length⟩ := by
  have first : splitDigits (ws ++ '.' :: (fs ++ cs)) = (ws, '.' :: (fs ++ cs)) :=
    splitDigits_append whole (by simp)
  have second : splitFraction ('.' :: (fs ++ cs)) = (fs, cs) := splitDigits_append fraction parted
  have number := natural?_of_isDigit some_digit
    (List.forall_mem_append.mpr ⟨whole, fraction⟩)
  simp [magnitude?, first, second, number, power]

/-- Digits without a point. -/
theorem magnitude?_whole (some_digit : ws ≠ []) (whole : ∀ c ∈ ws, c.isDigit = true)
    (parted : ∀ c ∈ cs.head?, c.isDigit = false ∧ c ≠ '.') (power : power? cs = some e) :
    magnitude? (ws ++ cs) = some ⟨digitsValue ws, e⟩ := by
  have first : splitDigits (ws ++ cs) = (ws, cs) :=
    splitDigits_append whole fun c front => (parted c front).1
  have second : splitFraction cs = ([], cs) := by
    cases cs with
    | nil => rfl
    | cons c cs => exact splitFraction.eq_2 _ fun _ eq => (parted c rfl).2 (List.cons.inj eq).1
  have number := natural?_of_isDigit some_digit whole
  simp [magnitude?, first, second, number, power]

end Magnitude

theorem natural?_natChars (n : Nat) : natural? (natChars n) = some n := by
  have some_digit : natChars n ≠ [] := Nat.toDigits_ne_nil
  rw [natural?_of_isDigit some_digit Json.isDigit_natChars, digitsValue_natChars]

/-- The exponent behind the digits. -/
theorem power?_exponent (e : Int) :
    power? (if e < 0 then 'e' :: intChars e else 'e' :: '+' :: intChars e) = some e := by
  split
  · next negative =>
    have back : -(e.natAbs : Int) = e := by omega
    rw [intChars, if_pos negative, power?, if_pos (.inl rfl), splitSign]
    simp only [natural?_natChars, if_true]
    exact congrArg some back
  · next positive =>
    have back : (e.natAbs : Int) = e := by omega
    rw [intChars, if_neg positive, power?, if_pos (.inl rfl), splitSign]
    simp only [natural?_natChars, Bool.false_eq_true, if_false]
    exact congrArg some back

section Printed

variable {ds : List Char}

theorem isDigit_zeros (k : Nat) : ∀ c ∈ List.replicate k '0', c.isDigit = true := by
  intro c mem
  rw [List.eq_of_mem_replicate mem]
  rfl

/-- The point behind all digits, and one zero behind the point. -/
theorem magnitude?_integer (digits : ∀ c ∈ ds, c.isDigit = true) (k : Nat) :
    magnitude? (ds ++ List.replicate k '0' ++ ['.', '0']) =
      some ⟨digitsValue ds * 10 ^ (k + 1), -1⟩ := by
  have read := magnitude?_point (ds ++ List.replicate k '0') ['0'] []
    (by simp) (List.forall_mem_append.mpr ⟨digits, isDigit_zeros k⟩) (isDigit_zeros 1) (by simp) rfl
  have zeros := digitsValue_append_zeros ds (k + 1)
  rw [List.replicate_succ', ← List.append_assoc] at zeros
  rw [zeros] at read
  exact read

/-- The point among the digits. -/
theorem magnitude?_among (some_digit : ds ≠ []) (digits : ∀ c ∈ ds, c.isDigit = true) (k : Nat) :
    magnitude? (ds.take k ++ '.' :: ds.drop k) =
      some ⟨digitsValue ds, -((ds.length - k : Nat) : Int)⟩ := by
  have read := magnitude?_point (ds.take k) (ds.drop k) []
    (by rwa [List.take_append_drop]) (fun c mem => digits c (List.mem_of_mem_take mem))
    (fun c mem => digits c (List.mem_of_mem_drop mem)) (by simp) rfl
  rw [List.append_nil, List.take_append_drop, List.length_drop, Int.zero_sub] at read
  exact read

/-- The point in front of all digits, and zeros behind it. -/
theorem magnitude?_behind (digits : ∀ c ∈ ds, c.isDigit = true) (k : Nat) :
    magnitude? ('0' :: '.' :: (List.replicate k '0' ++ ds)) =
      some ⟨digitsValue ds, -((k + ds.length : Nat) : Int)⟩ := by
  have read := magnitude?_point ['0'] (List.replicate k '0' ++ ds) []
    (by simp) (isDigit_zeros 1) (List.forall_mem_append.mpr ⟨isDigit_zeros k, digits⟩) (by simp) rfl
  rw [List.append_nil, List.length_append, List.length_replicate, Int.zero_sub] at read
  rw [← digitsValue_zeros_append k ds, ← digitsValue_zeros_append 1 (List.replicate k '0' ++ ds)]
  exact read

/-- The point behind the first digit, if there are more, and a power of ten. -/
theorem magnitude?_power {c : Char} (digits : ∀ d ∈ c :: ds, d.isDigit = true) {cs : List Char}
    {e : Int} (parted : ∀ d ∈ cs.head?, d.isDigit = false ∧ d ≠ '.') (power : power? cs = some e) :
    magnitude? (match c :: ds with
      | [c] => c :: cs
      | c :: rest => c :: '.' :: (rest ++ cs)
      | [] => cs) = some ⟨digitsValue (c :: ds), e - ds.length⟩ := by
  obtain ⟨first, later⟩ := List.forall_mem_cons.mp digits
  cases ds with
  | nil =>
    have read := magnitude?_whole [c] cs (by simp) digits parted power
    rw [← Int.sub_zero e] at read
    exact read
  | cons d ds =>
    exact magnitude?_point [c] (d :: ds) cs (by simp) (by simpa using first) later
      (fun c front => (parted c front).1) power

end Printed

/-- What is printed of a decimal is read as the same number. -/
theorem magnitude?_decimalChars (d : Decimal) :
    ∃ read, magnitude? (decimalChars d) = some read ∧ read.value = d.value := by
  have digits : ∀ c ∈ natChars d.coefficient, c.isDigit = true := Json.isDigit_natChars
  have some_digit : natChars d.coefficient ≠ [] := Nat.toDigits_ne_nil
  have number := digitsValue_natChars d.coefficient
  have itself {e : Int} (same : e = d.exponent) :
      (⟨digitsValue (natChars d.coefficient), e⟩ : Decimal).value = d.value := by
    rw [number, same]
  simp only [decimalChars]
  generalize natChars d.coefficient = ds at digits some_digit number itself
  split
  · next inPlace =>
    refine ⟨_, magnitude?_integer digits _, ?_⟩
    rw [value, value, number, Nat.pow_succ]
    push_cast
    rw [← zpow_natCast, Int.toNat_of_nonneg inPlace.1, zpow_neg, zpow_one]
    field_simp
  · split
    · next among => exact ⟨_, magnitude?_among some_digit digits _, itself (by omega)⟩
    · split
      · next before => exact ⟨_, magnitude?_behind digits _, itself (by omega)⟩
      · have power := power?_exponent ((ds.length : Int) + d.exponent - 1)
        have below : (ds.length : Int) + d.exponent < 1 ↔
            (ds.length : Int) + d.exponent - 1 < 0 := by omega
        simp only [below]
        obtain ⟨c, rest, rfl⟩ := List.exists_cons_of_ne_nil some_digit
        refine ⟨_, magnitude?_power digits ?_ power, itself ?_⟩
        · split <;> simp
        · rw [List.length_cons]
          omega

/-- What reads as a magnitude has no sign in front. -/
theorem splitSign_of_magnitude? {cs : List Char} {d : Decimal} (read : magnitude? cs = some d) :
    splitSign cs = (false, cs) := by
  refine splitSign.eq_3 cs ?_ ?_ <;>
  · rintro rest rfl
    simp [magnitude?, splitDigits, splitFraction, natural?] at read

end Decimal

/-- A double is read back as it was printed. -/
theorem Binary64.parse?_doubleChars {x : Binary64} (rounded : x.IsRounded) :
    parse? (String.ofList (doubleChars x)) = some x := by
  obtain ⟨read, magnitude, same⟩ := Decimal.magnitude?_decimalChars x.shortest
  have double : read.toBinary64 x.negative = some x := by
    rw [Decimal.toBinary64_congr x.negative same]
    exact toBinary64_of_readBack (readBack_shortest rounded)
  have signed : Decimal.splitSign (doubleChars x) = (x.negative, decimalChars x.shortest) := by
    rw [doubleChars]
    cases x.negative with
    | false => exact Decimal.splitSign_of_magnitude? magnitude
    | true => rfl
  simp [parse?, signed, magnitude, double]

namespace Json

def isNumeralChar (c : Char) : Bool := c.isDigit || c == '-' || c == '+' || c == '.' || c == 'e'

theorem doubleChars_inj {x y : Binary64} (hx : x.IsRounded) (hy : y.IsRounded)
    (same : doubleChars x = doubleChars y) : x = y := by
  have read := Binary64.parse?_doubleChars hx
  rw [same, Binary64.parse?_doubleChars hy] at read
  exact (Option.some.inj read).symm

theorem natChars_inj {m n : Nat} (same : natChars m = natChars n) : m = n := by
  rw [← Decimal.digitsValue_natChars m, same, Decimal.digitsValue_natChars]

theorem minus_ne_natChars (cs : List Char) (n : Nat) : '-' :: cs ≠ natChars n := by
  intro same
  have minus := isDigit_natChars (n := n) '-' (same ▸ List.mem_cons_self)
  exact absurd minus (by decide)

theorem intChars_inj {i j : Int} (same : intChars i = intChars j) : i = j := by
  rw [intChars, intChars] at same
  split at same <;> split at same
  · have := natChars_inj (List.cons.inj same).2
    omega
  · exact absurd same (minus_ne_natChars _ _)
  · exact absurd same.symm (minus_ne_natChars _ _)
  · have := natChars_inj same
    omega

theorem isDigit_intChars {i : Int} {c : Char} (mem : c ∈ intChars i) :
    c.isDigit = true ∨ c = '-' := by
  rw [intChars] at mem
  split at mem
  · rcases List.mem_cons.mp mem with rfl | mem
    · exact .inr rfl
    · exact .inl (isDigit_natChars c mem)
  · exact .inl (isDigit_natChars c mem)

theorem isNumeralChar_of_isDigit {c : Char} (digit : c.isDigit = true) :
    isNumeralChar c = true := by
  simp [isNumeralChar, digit]

theorem isNumeralChar_intChars {i : Int} : ∀ c ∈ intChars i, isNumeralChar c = true := by
  intro c mem
  rcases isDigit_intChars mem with digit | rfl
  · exact isNumeralChar_of_isDigit digit
  · rfl

/-- A decimal is written with a point or a power of ten. -/
theorem exists_point_decimalChars (d : Decimal) : ∃ c ∈ decimalChars d, c = '.' ∨ c = 'e' := by
  simp only [decimalChars]
  split
  · exact ⟨'.', by simp, .inl rfl⟩
  · split
    · exact ⟨'.', by simp, .inl rfl⟩
    · split
      · exact ⟨'.', by simp, .inl rfl⟩
      · refine ⟨'e', ?_, .inr rfl⟩
        split <;> split <;> simp

theorem isNumeralChar_decimalChars {d : Decimal} :
    ∀ c ∈ decimalChars d, isNumeralChar c = true := by
  have digits : ∀ c ∈ natChars d.coefficient, isNumeralChar c = true :=
    fun c mem => isNumeralChar_of_isDigit (isDigit_natChars c mem)
  have zeros (k : Nat) : ∀ c ∈ List.replicate k '0', isNumeralChar c = true :=
    fun c mem => isNumeralChar_of_isDigit (Decimal.isDigit_zeros k c mem)
  have power (e : Int) :
      ∀ c ∈ (if e < 0 then 'e' :: intChars e else 'e' :: '+' :: intChars e),
        isNumeralChar c = true := by
    split
    · exact List.forall_mem_cons.mpr ⟨rfl, isNumeralChar_intChars⟩
    · exact List.forall_mem_cons.mpr ⟨rfl, List.forall_mem_cons.mpr ⟨rfl, isNumeralChar_intChars⟩⟩
  simp only [decimalChars]
  generalize natChars d.coefficient = ds at digits
  split
  · exact List.forall_mem_append.mpr ⟨List.forall_mem_append.mpr ⟨digits, zeros _⟩,
      List.forall_mem_cons.mpr ⟨rfl, List.forall_mem_singleton.mpr rfl⟩⟩
  · split
    · exact List.forall_mem_append.mpr ⟨fun c mem => digits c (List.mem_of_mem_take mem),
        List.forall_mem_cons.mpr ⟨rfl, fun c mem => digits c (List.mem_of_mem_drop mem)⟩⟩
    · split
      · exact List.forall_mem_cons.mpr ⟨rfl, List.forall_mem_cons.mpr
          ⟨rfl, List.forall_mem_append.mpr ⟨zeros _, digits⟩⟩⟩
      · have power := power ((ds.length : Int) + d.exponent - 1)
        have below : (ds.length : Int) + d.exponent - 1 < 0 ↔
            (ds.length : Int) + d.exponent < 1 := by omega
        simp only [below] at power
        split
        · exact List.forall_mem_cons.mpr ⟨(List.forall_mem_cons.mp digits).1, power⟩
        · obtain ⟨first, later⟩ := List.forall_mem_cons.mp digits
          exact List.forall_mem_cons.mpr ⟨first, List.forall_mem_cons.mpr
            ⟨rfl, List.forall_mem_append.mpr ⟨later, power⟩⟩⟩
        · exact power

theorem isNumeralChar_doubleChars {x : Binary64} :
    ∀ c ∈ doubleChars x, isNumeralChar c = true := by
  rw [doubleChars]
  split
  · exact List.forall_mem_cons.mpr ⟨rfl, isNumeralChar_decimalChars⟩
  · exact isNumeralChar_decimalChars

theorem intChars_ne_nil (i : Int) : intChars i ≠ [] := by
  rw [intChars]
  split
  · exact List.cons_ne_nil _ _
  · exact Nat.toDigits_ne_nil

theorem doubleChars_ne_nil (x : Binary64) : doubleChars x ≠ [] := by
  obtain ⟨c, mem, -⟩ := exists_point_decimalChars x.shortest
  rw [doubleChars]
  split
  · exact List.cons_ne_nil _ _
  · exact List.ne_nil_of_mem mem

/-- No double is written like an integer. -/
theorem intChars_ne_doubleChars (i : Int) (x : Binary64) : intChars i ≠ doubleChars x := by
  intro same
  obtain ⟨c, mem, point⟩ := exists_point_decimalChars x.shortest
  have written : c ∈ doubleChars x := by
    rw [doubleChars]
    split
    · exact List.mem_cons_of_mem _ mem
    · exact mem
  rcases isDigit_intChars (same ▸ written) with digit | rfl
  · rcases point with rfl | rfl <;> exact absurd digit (by decide)
  · exact absurd point (by decide)

end Json

end Turnstile
