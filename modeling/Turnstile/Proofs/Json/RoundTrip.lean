import Mathlib.Data.List.Forall2
import Turnstile.Proofs.Json.Strings
import Turnstile.Proofs.Keyed

/-!
Values read back as they were printed. What a value reads as does not depend on the text behind it,
as long as that does not go on with a numeral, so the parts of an array or object can be taken one
by one. Doubles are left out. The fields of a record are then its members under their names.
-/

namespace Turnstile

namespace Ascii

theorem digits?_of_isDigit {cs : List Char} (h : ∀ c ∈ cs, c.isDigit = true) :
    digits? cs = some (cs.map fun c => c.toNat - 0x30) := by
  induction cs with
  | nil => rfl
  | cons c cs ih =>
    obtain ⟨here, later⟩ := List.forall_mem_cons.mp h
    have rest := ih later
    simp only [digits?] at rest
    simp [digits?, here, rest]

end Ascii

namespace Json

open Utf8 (encodeChars)

namespace Grammar

/-- The text does not go on with a numeral that ends before it. -/
def Parted : List UInt8 → Prop
  | [] => True
  | b :: _ => isDigit b = false ∧ b ≠ 0x2E ∧ b ≠ 0x65 ∧ b ≠ 0x45

end Grammar

def natDigits (n : Nat) : List Nat := (natChars n).map fun c => c.toNat - 0x30

def Numeral.ofNat (n : Nat) : Numeral := ⟨false, natDigits n, [], none⟩

theorem isDigit_natChars {n : Nat} : ∀ c ∈ natChars n, c.isDigit = true :=
  fun _ mem => Nat.isDigit_of_mem_toDigits (by omega) (by omega) mem

theorem natDigits_ne_nil {n : Nat} : natDigits n ≠ [] := by
  simp [natDigits, natChars, Nat.toDigits_ne_nil]

theorem natDigits_of_lt {n : Nat} (h : n < 10) : natDigits n = [n] := by
  rw [natDigits, natChars, Nat.toDigits_of_lt_base h]
  simp [Nat.toNat_digitChar_sub_48_of_lt_ten h]

theorem natDigits_append {m k : Nat} (hm : 0 < m) (hk : k < 10) :
    natDigits (10 * m + k) = natDigits m ++ [k] := by
  rw [natDigits, natChars, ← Nat.toDigits_append_toDigits (by omega) hm hk, List.map_append]
  congr 1
  exact natDigits_of_lt hk

theorem ofDigits_natDigits (n : Nat) : Ascii.ofDigits (natDigits n) = n := by
  induction n using Nat.base_induction 10 (by omega) with
  | single m hm =>
    rw [natDigits_of_lt hm]
    simp [Ascii.ofDigits]
  | digit m k hk hm ih =>
    rw [Ascii.ofDigits] at ih
    rw [natDigits_append hm hk, Ascii.ofDigits, List.foldl_append, ih]
    simp only [List.foldl_cons, List.foldl_nil]
    omega

/-- Only zero is written with a zero in front. -/
theorem eq_zero_of_natDigits {n : Nat} (h : (natDigits n).head? = some 0) : n = 0 := by
  induction n using Nat.base_induction 10 (by omega) with
  | single m hm => simpa [natDigits_of_lt hm] using h
  | digit m k hk hm ih =>
    rw [natDigits_append hm hk, List.head?_append_of_ne_nil] at h
    · have := ih h
      omega
    · exact natDigits_ne_nil

namespace Grammar

theorem isDigit_ofNat {c : Char} (h : c.isDigit = true) :
    c.toNat < 0x80 ∧ isDigit (UInt8.ofNat c.toNat) = true ∧
      (UInt8.ofNat c.toNat).toNat = c.toNat := by
  obtain ⟨low, high⟩ : 0x30 ≤ c.toNat ∧ c.toNat ≤ 0x39 := Char.isDigit_iff_toNat.mp h
  have toNat : (UInt8.ofNat c.toNat).toNat = c.toNat := by
    rw [UInt8.toNat_ofNat']
    omega
  refine ⟨by omega, ?_, toNat⟩
  simp only [isDigit, Bool.and_eq_true, decide_eq_true_eq, UInt8.le_iff_toNat_le, toNat]
  exact ⟨low, high⟩

/-- Digits are read up to what parts them from the rest. -/
theorem digits_encodeChars {cs : List Char} (h : ∀ c ∈ cs, c.isDigit = true) {rest : List UInt8}
    (parted : Parted rest) :
    digits (encodeChars cs ++ rest) = (cs.map fun c => c.toNat - 0x30, rest) := by
  induction cs with
  | nil =>
    cases rest with
    | nil => rfl
    | cons b rest => simp [digits, parted.1]
  | cons c cs ih =>
    obtain ⟨digit, later⟩ := List.forall_mem_cons.mp h
    obtain ⟨ascii, isDigit, toNat⟩ := isDigit_ofNat digit
    have rest := ih later
    rw [digits, Prod.mk.injEq] at rest
    rw [Utf8.encodeChars_cons_of_lt ascii, List.cons_append, digits,
      List.takeWhile_cons_of_pos isDigit, List.dropWhile_cons_of_pos isDigit, List.map_cons, rest.1,
      rest.2, toNat, List.map_cons]

theorem fraction_parted {rest : List UInt8} (parted : Parted rest) :
    fraction rest = some ([], rest) := by
  cases rest with
  | nil => rfl
  | cons b rest =>
    obtain ⟨-, point, -, -⟩ := parted
    simp [fraction, point]

theorem exponent_parted {rest : List UInt8} (parted : Parted rest) :
    exponent rest = some (none, rest) := by
  cases rest with
  | nil => rfl
  | cons b rest =>
    obtain ⟨-, -, small, capital⟩ := parted
    simp [exponent, small, capital]

theorem whole_natChars (n : Nat) {rest : List UInt8} (parted : Parted rest) :
    whole (encodeChars (natChars n) ++ rest) = some (natDigits n, rest) := by
  have read : digits (encodeChars (natChars n) ++ rest) = (natDigits n, rest) :=
    digits_encodeChars isDigit_natChars parted
  have some : digits1 (encodeChars (natChars n) ++ rest) = some (natDigits n, rest) := by
    simp [digits1, read, natDigits_ne_nil]
  rw [whole, some]
  split
  · next eq =>
    have zero : natDigits n = 0 :: _ := congrArg Prod.fst (Option.some.inj eq)
    have isZero := eq_zero_of_natDigits (congrArg List.head? zero)
    subst isZero
    cases zero
  · rfl

/-- A natural number starts with a digit. -/
theorem natChars_cons (n : Nat) :
    ∃ b bs, encodeChars (natChars n) = b :: bs ∧ isDigit b = true := by
  obtain ⟨c, cs, eq⟩ := List.exists_cons_of_ne_nil (Nat.toDigits_ne_nil (n := n) (b := 10))
  obtain ⟨ascii, digit, -⟩ := isDigit_ofNat (isDigit_natChars (n := n) c (by simp [natChars, eq]))
  exact ⟨_, _, by rw [natChars, eq, Utf8.encodeChars_cons_of_lt ascii], digit⟩

theorem numeral_natChars (n : Nat) {rest : List UInt8} (parted : Parted rest) :
    numeral (encodeChars (natChars n) ++ rest) = some (.ofNat n, rest) := by
  have whole := whole_natChars n parted
  obtain ⟨b, bs, eq, digit⟩ := natChars_cons n
  rw [eq, List.cons_append] at whole ⊢
  have positive : b ≠ 0x2D := by
    rintro rfl
    cases digit
  simp only [numeral]
  split
  · next minus => cases minus; contradiction
  · simp [whole, fraction_parted parted, exponent_parted parted, Numeral.ofNat]

/-- A value that starts with none of these bytes is a numeral. -/
theorem value_of_notMem {b : UInt8} (h : b ∉ [0x6E, 0x74, 0x66, 0x22, 0x5B, 0x7B]) (fuel : Nat)
    (s : List UInt8) :
    value (fuel + 1) (b :: s) = (numeral (b :: s)).map fun (n, r) => (.numeral n, r) := by
  simp only [List.mem_cons, not_or] at h
  obtain ⟨n, t, f, quote, bracket, brace, -⟩ := h
  exact value.eq_8 _ _ (fun _ eq => n (List.cons.inj eq).1) (fun _ eq => t (List.cons.inj eq).1)
    (fun _ eq => f (List.cons.inj eq).1) (fun _ eq => quote (List.cons.inj eq).1)
    (fun _ eq => bracket (List.cons.inj eq).1) (fun _ eq => brace (List.cons.inj eq).1)

/-- What stands between values, and so at the front of none. -/
def IsBreak (b : UInt8) : Prop := isSpace b = true ∨ b = 0x5D

theorem value_break {b : UInt8} (h : IsBreak b) (fuel : Nat) (s : List UInt8) :
    value fuel (b :: s) = none := by
  obtain ⟨digit, minus, other⟩ : isDigit b = false ∧ b ≠ 0x2D ∧
      b ∉ [0x6E, 0x74, 0x66, 0x22, 0x5B, 0x7B] := by
    rcases h with space | rfl
    · simp only [isSpace, Bool.or_eq_true, beq_iff_eq] at space
      rcases space with ((rfl | rfl) | rfl) | rfl <;> decide
    · decide
  cases fuel with
  | zero => rfl
  | succ fuel =>
    rw [value_of_notMem other, numeral]
    · simp [whole, digits1, digits, digit]
    · exact fun _ eq => minus (List.cons.inj eq).1

theorem skipSpace_of_value {fuel : Nat} {s : List UInt8} (h : value fuel s ≠ none) :
    skipSpace s = s := by
  cases s with
  | nil => rfl
  | cons b s =>
    rw [skipSpace, List.dropWhile_cons_of_neg]
    intro space
    exact h (value_break (.inl space) fuel s)

end Grammar

/-- A value is read as a tree, whatever follows it that does not go on with a numeral. -/
def Reads (v : Value) (t : Tree) : Prop :=
  ∀ fuel rest, Grammar.Parted rest → 2 * (encodeChars v.chars).length ≤ fuel →
    Grammar.value fuel (encodeChars v.chars ++ rest) = some (t, rest)

theorem chars_ofNat (n : Nat) : (Value.ofNat n).chars = natChars n := by
  simp [Value.ofNat, Value.chars, Number.chars, intChars]

theorem reads_ofNat (n : Nat) : Reads (.ofNat n) (.numeral (.ofNat n)) := by
  intro fuel rest parted enough
  rw [chars_ofNat] at enough ⊢
  have numeral := Grammar.numeral_natChars n parted
  obtain ⟨b, bs, eq, digit⟩ := Grammar.natChars_cons n
  rw [eq] at enough numeral ⊢
  obtain ⟨fuel, rfl⟩ := Nat.exists_eq_add_of_le' (Nat.le_trans (by simp; omega) enough : 1 ≤ fuel)
  rw [List.cons_append] at numeral ⊢
  rw [Grammar.value_of_notMem, numeral]
  · rfl
  · intro mem
    simp only [List.mem_cons, List.not_mem_nil, or_false] at mem
    rcases mem with rfl | rfl | rfl | rfl | rfl | rfl <;> cases digit

theorem reads_string (s : String) : Reads (.string s) (.string (textPieces s)) := by
  intro fuel rest _ enough
  have chars : encodeChars (Value.string s).chars =
      0x22 :: encodeChars (s.toList.flatMap escapeChar ++ ['"']) := by
    rw [Value.chars, quote]
    rfl
  rw [chars] at enough ⊢
  obtain ⟨fuel, rfl⟩ := Nat.exists_eq_add_of_le' (Nat.le_trans (by simp; omega) enough : 1 ≤ fuel)
  rw [List.cons_append, Grammar.value.eq_5, Grammar.pieces_quote]
  rfl

/-- No part of a value is skipped as space. -/
theorem Reads.skipSpace {v : Value} {t : Tree} (h : Reads v t) {s : List UInt8}
    (parted : Grammar.Parted s) :
    Grammar.skipSpace (encodeChars v.chars ++ s) = encodeChars v.chars ++ s := by
  apply Grammar.skipSpace_of_value
  rw [h _ s parted (Nat.le_refl _)]
  simp

theorem parted_moreItemChars (vs : List Value) (rest : List UInt8) :
    Grammar.Parted (encodeChars (moreItemChars vs) ++ rest) := by
  cases vs with
  | nil => exact ⟨rfl, by decide, by decide, by decide⟩
  | cons v vs =>
    rw [moreItemChars]
    exact ⟨rfl, by decide, by decide, by decide⟩

/-- The bytes of a comma and of what follows it. -/
theorem encodeChars_comma (cs : List Char) : encodeChars (',' :: cs) = 0x2C :: encodeChars cs := rfl

/-- After the first item, an array goes on with a comma or ends. -/
theorem items_cons {v : Value} {t : Tree} (h : Reads v t) {s : List UInt8}
    (parted : Grammar.Parted s) {fuel : Nat} (enough : 2 * (encodeChars v.chars).length ≤ fuel) :
    Grammar.items (fuel + 1) (encodeChars v.chars ++ s) =
      match Grammar.skipSpace s with
      | 0x5D :: r => some ([t], r)
      | 0x2C :: u => do
        let (ts, r) ← Grammar.items fuel (Grammar.skipSpace u)
        some (t :: ts, r)
      | _ => none := by
  rw [Grammar.items, h fuel s parted enough]
  rfl

/-- The items of an array, from the first one on. -/
theorem items_of_reads {v : Value} {t : Tree} {vs : List Value} {ts : List Tree} (h : Reads v t)
    (more : List.Forall₂ Reads vs ts) {fuel : Nat} (rest : List UInt8)
    (enough : 2 * (encodeChars (v.chars ++ moreItemChars vs)).length ≤ fuel) :
    Grammar.items fuel (encodeChars (v.chars ++ moreItemChars vs) ++ rest) =
      some (t :: ts, rest) := by
  rw [Utf8.encodeChars_append, List.length_append] at enough
  rw [Utf8.encodeChars_append, List.append_assoc]
  induction more generalizing v t fuel with
  | nil =>
    have length : (encodeChars (moreItemChars [])).length = 1 := rfl
    obtain ⟨fuel, rfl⟩ := Nat.exists_eq_add_of_le' (by omega : 1 ≤ fuel)
    rw [items_cons h (parted_moreItemChars [] rest) (by omega)]
    rfl
  | @cons v' t' vs ts next more ih =>
    have bytes : encodeChars (moreItemChars (v' :: vs)) =
        0x2C :: (encodeChars v'.chars ++ encodeChars (moreItemChars vs)) := by
      rw [moreItemChars, encodeChars_comma, Utf8.encodeChars_append]
    have length := congrArg List.length bytes
    rw [List.length_cons, List.length_append] at length
    obtain ⟨fuel, rfl⟩ := Nat.exists_eq_add_of_le' (by omega : 1 ≤ fuel)
    have skipped := next.skipSpace (parted_moreItemChars vs rest)
    have later := ih next (by omega : _ ≤ fuel)
    rw [← skipped] at later
    rw [items_cons h (parted_moreItemChars (v' :: vs) rest) (by omega), bytes, List.cons_append,
      List.append_assoc]
    exact congrArg (fun o => o >>= fun (ts, r) => some (t :: ts, r)) later

theorem reads_array {vs : List Value} {ts : List Tree} (h : List.Forall₂ Reads vs ts) :
    Reads (.array vs) (.array ts) := by
  intro fuel rest _ enough
  cases h with
  | nil =>
    obtain ⟨fuel, rfl⟩ := Nat.exists_eq_add_of_le' (Nat.le_trans (by decide : 1 ≤ 4) enough)
    rfl
  | @cons v t vs ts first more =>
    have bytes : encodeChars (Value.array (v :: vs)).chars =
        0x5B :: encodeChars (v.chars ++ moreItemChars vs) := by
      rw [Value.chars]
      rfl
    rw [bytes, List.length_cons] at enough
    obtain ⟨fuel, rfl⟩ := Nat.exists_eq_add_of_le' (by omega : 1 ≤ fuel)
    have skipped : Grammar.skipSpace (encodeChars (v.chars ++ moreItemChars vs) ++ rest) =
        encodeChars (v.chars ++ moreItemChars vs) ++ rest := by
      rw [Utf8.encodeChars_append, List.append_assoc,
        first.skipSpace (parted_moreItemChars vs rest)]
    rw [bytes, List.cons_append, Grammar.value.eq_6, skipped]
    split
    · next r closed =>
      have read := first _ _ (parted_moreItemChars vs rest) (Nat.le_refl _)
      rw [← List.append_assoc, ← Utf8.encodeChars_append, closed,
        Grammar.value_break (.inr rfl)] at read
      cases read
    · rw [items_of_reads first more rest (by omega)]
      rfl

theorem parted_moreMemberChars (ms : List (String × Value)) (rest : List UInt8) :
    Grammar.Parted (encodeChars (moreMemberChars ms) ++ rest) := by
  cases ms with
  | nil => exact ⟨rfl, by decide, by decide, by decide⟩
  | cons m ms =>
    rw [moreMemberChars]
    exact ⟨rfl, by decide, by decide, by decide⟩

/-- A member, and what follows it, in bytes. -/
theorem encodeChars_member (k : String) (v : Value) (cs : List Char) :
    encodeChars (quote k.toList ++ ':' :: (v.chars ++ cs)) =
      0x22 :: (encodeChars (k.toList.flatMap escapeChar ++ ['"']) ++
        0x3A :: (encodeChars v.chars ++ encodeChars cs)) := by
  rw [Utf8.encodeChars_append, ← Utf8.encodeChars_append v.chars]
  rfl

/-- After the first member, an object goes on with a comma or ends. -/
theorem members_cons (k : String) {v : Value} {t : Tree} (h : Reads v t) {s : List UInt8}
    (parted : Grammar.Parted s) {fuel : Nat} (enough : 2 * (encodeChars v.chars).length ≤ fuel) :
    Grammar.members (fuel + 1) (0x22 :: (encodeChars (k.toList.flatMap escapeChar ++ ['"']) ++
        0x3A :: (encodeChars v.chars ++ s))) =
      match Grammar.skipSpace s with
      | 0x7D :: r => some ([(textPieces k, t)], r)
      | 0x2C :: u => do
        let (ts, r) ← Grammar.members fuel (Grammar.skipSpace u)
        some ((textPieces k, t) :: ts, r)
      | _ => none := by
  rw [Grammar.members, Grammar.pieces_quote]
  change Option.bind (Grammar.value fuel (Grammar.skipSpace _)) _ = _
  rw [h.skipSpace parted, h fuel s parted enough]
  rfl

/-- The members of an object, from the first one on. -/
theorem members_of_reads {k : String} {v : Value} {t : Tree} {ms : List (String × Value)}
    {ts : List (List Piece × Tree)} (h : Reads v t)
    (more : List.Forall₂ (fun m t => t.1 = textPieces m.1 ∧ Reads m.2 t.2) ms ts) {fuel : Nat}
    (rest : List UInt8)
    (enough : 2 * (encodeChars (quote k.toList ++ ':' ::
      (v.chars ++ moreMemberChars ms))).length ≤ fuel) :
    Grammar.members fuel
        (encodeChars (quote k.toList ++ ':' :: (v.chars ++ moreMemberChars ms)) ++ rest) =
      some ((textPieces k, t) :: ts, rest) := by
  rw [encodeChars_member] at enough ⊢
  simp only [List.length_cons, List.length_append] at enough
  simp only [List.cons_append, List.append_assoc]
  induction more generalizing k v t fuel with
  | nil =>
    obtain ⟨fuel, rfl⟩ := Nat.exists_eq_add_of_le' (by omega : 1 ≤ fuel)
    rw [members_cons k h (parted_moreMemberChars [] rest) (by omega)]
    rfl
  | @cons m' t' ms ts next more ih =>
    obtain ⟨k', v'⟩ := m'
    obtain ⟨ps', t'⟩ := t'
    obtain ⟨rfl, next : Reads v' t'⟩ := next
    have bytes : encodeChars (moreMemberChars ((k', v') :: ms)) =
        0x2C :: encodeChars (quote k'.toList ++ ':' :: (v'.chars ++ moreMemberChars ms)) := by
      rw [moreMemberChars, encodeChars_comma]
    rw [encodeChars_member] at bytes
    have length := congrArg List.length bytes
    simp only [List.length_cons, List.length_append] at length
    obtain ⟨fuel, rfl⟩ := Nat.exists_eq_add_of_le' (by omega : 1 ≤ fuel)
    have later : Grammar.members fuel _ = _ := ih (k := k') next (by omega)
    rw [members_cons k h (parted_moreMemberChars ((k', v') :: ms) rest) (by omega), bytes]
    simp only [List.cons_append, List.append_assoc]
    exact congrArg (fun o => o >>= fun (ts, r) => some ((textPieces k, t) :: ts, r)) later

theorem reads_object {ms : List (String × Value)} {ts : List (List Piece × Tree)}
    (h : List.Forall₂ (fun m t => t.1 = textPieces m.1 ∧ Reads m.2 t.2) ms ts) :
    Reads (.object ms) (.object ts) := by
  intro fuel rest _ enough
  cases h with
  | nil =>
    obtain ⟨fuel, rfl⟩ := Nat.exists_eq_add_of_le' (Nat.le_trans (by decide : 1 ≤ 4) enough)
    rfl
  | @cons m t ms ts first more =>
    obtain ⟨k, v⟩ := m
    obtain ⟨ps, t⟩ := t
    obtain ⟨rfl, first : Reads v t⟩ := first
    have bytes : encodeChars (Value.object ((k, v) :: ms)).chars =
        0x7B :: encodeChars (quote k.toList ++ ':' :: (v.chars ++ moreMemberChars ms)) := by
      rw [Value.chars]
      rfl
    rw [bytes, List.length_cons] at enough
    obtain ⟨fuel, rfl⟩ := Nat.exists_eq_add_of_le' (by omega : 1 ≤ fuel)
    have read : Grammar.members fuel _ = _ := members_of_reads (k := k) first more rest (by omega)
    rw [bytes, List.cons_append, Grammar.value.eq_7]
    rw [encodeChars_member, List.cons_append] at read ⊢
    exact congrArg (Option.map fun (xs, r) => (Tree.object xs, r)) read

theorem Reads.parse? {v : Value} {t : Tree} (h : Reads v t) :
    Tree.parse? (encodeChars v.chars) = some t := by
  have skipped := h.skipSpace (s := []) trivial
  rw [List.append_nil] at skipped
  have read := h (2 * (encodeChars v.chars).length + 2) [] trivial (by omega)
  rw [List.append_nil] at read
  rw [Tree.parse?, skipped, read]
  rfl

theorem Numeral.toNumber?_ofNat {n : Nat} (h : n < Number.bound) :
    (Numeral.ofNat n).toNumber? = some (.integer n) := by
  simp [Numeral.toNumber?, Numeral.ofNat, ofDigits_natDigits, h]

/-- A number that fits is read as itself. -/
theorem natBelow?_ofNat {n bound : Nat} (h : n < bound) (fits : bound ≤ Number.bound) :
    Tree.natBelow? bound (.numeral (.ofNat n)) = some n := by
  rw [Tree.natBelow?, Numeral.toNumber?_ofNat (by omega)]
  simp [Number.natBelow?, h]

def textTree (t : String) : Tree := .string (textPieces t)

theorem string?_textTree (t : String) : (textTree t).string? = some t := piecesText?_textPieces t

theorem variant?_textTree (t : String) : variant? (textTree t) = some t := piecesText?_textPieces t

/-- A text that may be missing is read as it is. -/
theorem optional_textTree {read : Tree → Option String} (reads : ∀ t, read (textTree t) = some t)
    (t : Option String) : optional read (t.map textTree) = some t := by
  cases t with
  | none => rfl
  | some t => exact congrArg (Option.map some) (reads t)

def objectTree (ms : List (String × Tree)) : Tree :=
  .object (ms.map fun m => (textPieces m.1, m.2))

theorem members?_objectTree (ms : List (String × Tree)) : (objectTree ms).members? = some ms := by
  rw [objectTree, Tree.members?]
  induction ms with
  | nil => rfl
  | cons m ms ih => simp [piecesText?_textPieces, ih]

/-- The fields of an object that has no member twice are its members under their names. -/
theorem fields?_objectTree {ms : List (String × Tree)} (distinct : (ms.map (·.1)).Nodup)
    (names : List String) :
    (objectTree ms).fields? names = some (names.map fun n => Keyed.get? n ms) := by
  have own : ((ms.filter fun m => names.contains m.1).map (·.1)).Nodup :=
    distinct.sublist (List.filter_sublist.map _)
  have under : ∀ n ∈ names,
      Keyed.get? n (ms.filter fun m => names.contains m.1) = Keyed.get? n ms :=
    fun n mem => Keyed.get?_filter_keys (List.contains_iff_mem.mpr mem)
  have unfolded : (objectTree ms).fields? names = (objectTree ms).members? >>= fun ms =>
      let own := ms.filter fun m => names.contains m.1
      if (own.map (·.1)).Nodup then some (names.map fun n => Keyed.get? n own) else none := rfl
  rw [unfolded, members?_objectTree]
  simp only [Option.bind_eq_bind, Option.bind_some, if_pos own, List.map_congr_left under]

end Json

end Turnstile
