import Turnstile.Http.Form
import Turnstile.Proofs.Text.Utf8

/-!
Written queries are read back. What separates the pieces of a query is never written as it is inside
a name or a value, so `parse_write` holds of all pairs of texts: empty ones, and ones with
ampersands, equals signs, plus and percent signs in them.
-/

namespace Turnstile.Form

inductive Spelled : UInt8 → List UInt8 → Prop
  | plain {b : UInt8} (percent : b ≠ 0x25) (plus : b ≠ 0x2B) : Spelled b [b]
  | space : Spelled 0x20 [0x2B]
  | digits {b m n : UInt8} (upper : Ascii.hexValue? m = some (b.toNat / 16))
      (lower : Ascii.hexValue? n = some (b.toNat % 16)) : Spelled b [0x25, m, n]

theorem hexValue?_hexDigitUpper : ∀ n < 16,
    Ascii.hexValue? (UInt8.ofNat (Ascii.hexDigitUpper n).toNat) = some n := by decide

theorem hexDigitUpper_lt : ∀ n < 16, (Ascii.hexDigitUpper n).toNat < 0x80 := by decide

theorem isPlain_cases : ∀ n < 256, isPlain (UInt8.ofNat n) = true →
    n < 0x80 ∧ UInt8.ofNat n ≠ 0x25 ∧ UInt8.ofNat n ≠ 0x2B := by decide +kernel

theorem spelled_encodeByte (b : UInt8) : Spelled b (Utf8.encodeChars (encodeByte b)) := by
  unfold encodeByte
  by_cases plain : isPlain b = true
  · have small := isPlain_cases b.toNat b.toNat_lt
    rw [UInt8.ofNat_toNat] at small
    obtain ⟨ascii, percent, plus⟩ := small plain
    have toNat : (Char.ofNat b.toNat).toNat = b.toNat := Utf8.val_ofNat (.inl (by omega))
    rw [if_pos plain, Utf8.encodeChars_cons_of_lt (by rw [toNat]; exact ascii), toNat,
      UInt8.ofNat_toNat]
    exact .plain percent plus
  rw [if_neg plain]
  by_cases space : (b == 0x20) = true
  · rw [if_pos space, eq_of_beq space]
    exact .space
  · have upper : b.toNat / 16 < 16 := by
      have := b.toNat_lt
      omega
    have lower : b.toNat % 16 < 16 := by omega
    rw [if_neg space, Utf8.encodeChars_cons_of_lt (by decide),
      Utf8.encodeChars_cons_of_lt (hexDigitUpper_lt _ upper),
      Utf8.encodeChars_cons_of_lt (hexDigitUpper_lt _ lower)]
    exact .digits (hexValue?_hexDigitUpper _ upper) (hexValue?_hexDigitUpper _ lower)

theorem percentDecode_cons_of_ne {b : UInt8} (h : b ≠ 0x25) (s : List UInt8) :
    percentDecode (b :: s) = b :: percentDecode s := by
  rw [percentDecode]
  rintro _ _ _ rfl
  exact absurd rfl h

/-- A digit is no plus sign. -/
theorem plusToSpace_digit {b : UInt8} {n : Nat} (h : Ascii.hexValue? b = some n) :
    plusToSpace b = b := by
  unfold plusToSpace
  by_cases plus : (b == 0x2B) = true
  · rw [eq_of_beq plus] at h
    cases h
  · rw [if_neg plus]

theorem Spelled.percentDecode_append {b : UInt8} {bs : List UInt8} (h : Spelled b bs)
    (s : List UInt8) :
    percentDecode ((bs ++ s).map plusToSpace) = b :: percentDecode (s.map plusToSpace) := by
  cases h with
  | plain percent plus =>
    have same : plusToSpace b = b := by
      unfold plusToSpace
      rw [if_neg (by simpa using plus)]
    rw [List.singleton_append, List.map_cons, same, percentDecode_cons_of_ne percent]
  | space =>
    rw [List.singleton_append, List.map_cons]
    exact percentDecode_cons_of_ne (by decide) _
  | @digits b m n upper lower =>
    have whole : UInt8.ofNat (b.toNat / 16 * 16 + b.toNat % 16) = b := by
      rw [Nat.div_add_mod', UInt8.ofNat_toNat]
    have percent : plusToSpace 0x25 = 0x25 := by decide
    simp only [List.cons_append, List.nil_append, List.map_cons, percent, plusToSpace_digit upper,
      plusToSpace_digit lower]
    rw [percentDecode, upper, lower]
    simp only [whole]

theorem percentDecode_written (bs : List UInt8) :
    percentDecode ((Utf8.encodeChars (bs.flatMap encodeByte)).map plusToSpace) = bs := by
  induction bs with
  | nil => rw [List.flatMap_nil, Utf8.encodeChars_nil, List.map_nil, percentDecode]
  | cons b bs ih =>
    rw [List.flatMap_cons, Utf8.encodeChars_append, (spelled_encodeByte b).percentDecode_append, ih]

/-- A written name or value is read back. -/
theorem decodePart_encodePart (t : String) :
    decodePart (Utf8.encodeChars (encodePart t)) = t := by
  rw [decodePart, encodePart, percentDecode_written, Utf8.lossy_encode]

/-- The characters that a query is put together with, or that stand around it. -/
def isMark (c : Char) : Bool := c == '=' || c == '&' || c == ':' || c == '?'

/-- None of these is written as it is in a name or a value. -/
theorem notMem_encodePart {c : Char} (mark : isMark c = true) (t : String) : c ∉ encodePart t := by
  have bytes : ∀ n < 256, (encodeByte (UInt8.ofNat n)).all (!isMark ·) = true := by decide +kernel
  intro mem
  obtain ⟨b, -, mem⟩ := List.mem_flatMap.mp mem
  have absent := bytes b.toNat b.toNat_lt
  rw [UInt8.ofNat_toNat] at absent
  simpa [mark] using List.all_eq_true.mp absent c mem

theorem notMem_encodePair {c : Char} (mark : isMark c = true) (other : c ≠ '=')
    (p : String × String) : c ∉ encodePair p := by
  rw [encodePair, List.mem_append, List.mem_cons]
  rintro (name | rfl | value)
  · exact notMem_encodePart mark p.1 name
  · exact other rfl
  · exact notMem_encodePart mark p.2 value

theorem encodeChars_encodePair (p : String × String) :
    Utf8.encodeChars (encodePair p) =
      Utf8.encodeChars (encodePart p.1) ++ 0x3D :: Utf8.encodeChars (encodePart p.2) := by
  rw [encodePair, Utf8.encodeChars_append, Utf8.encodeChars_cons_of_lt (by decide)]
  rfl

/-- The bytes of a written pair, cut at the equals sign, are those of the name and the value. -/
theorem splitPair_encodePair (p : String × String) :
    splitPair (Utf8.encodeChars (encodePair p)) =
      (Utf8.encodeChars (encodePart p.1), Utf8.encodeChars (encodePart p.2)) := by
  have name : ∀ b ∈ Utf8.encodeChars (encodePart p.1), (b != 0x3D) = true := by
    intro b mem
    rw [bne_iff_ne]
    rintro rfl
    exact Utf8.notMem_encodeChars (c := '=') (by decide) (notMem_encodePart (by decide) p.1) mem
  rw [splitPair, encodeChars_encodePair, List.takeWhile_append_of_pos name,
    List.dropWhile_append_of_pos name]
  simp

/-- The bytes of a written query are those of its pairs, with ampersands between. -/
theorem encodeChars_write (pairs : List (String × String)) :
    Utf8.encodeChars (write pairs) =
      [0x26].intercalate (pairs.map fun p => Utf8.encodeChars (encodePair p)) := by
  unfold write
  induction pairs with
  | nil => rfl
  | cons p pairs ih =>
    cases pairs with
    | nil => simp
    | cons q pairs =>
      rw [List.map_cons] at ih
      rw [List.map_cons, List.map_cons, List.intercalate_cons_cons, Utf8.encodeChars_append,
        Utf8.encodeChars_append, ih, Utf8.encodeChars_cons_of_lt (by decide)]
      exact List.intercalate_cons_cons.symm

/-- The pieces of a written query are its pairs. -/
theorem splitOn_write {pairs : List (String × String)} (nonempty : pairs ≠ []) :
    (Utf8.encodeChars (write pairs)).splitOn 0x26 =
      pairs.map fun p => Utf8.encodeChars (encodePair p) := by
  rw [encodeChars_write]
  apply List.splitOn_intercalate
  · intro piece mem
    obtain ⟨p, -, rfl⟩ := List.mem_map.mp mem
    exact Utf8.notMem_encodeChars (c := '&') (by decide)
      (notMem_encodePair (by decide) (by decide) p)
  · simpa using nonempty

/-- A written query is read back, whatever its names and values are. -/
theorem parse_write (pairs : List (String × String)) :
    parse (Utf8.encodeChars (write pairs)) = pairs := by
  by_cases empty : pairs = []
  · subst empty
    rfl
  have kept : (pairs.map fun p => Utf8.encodeChars (encodePair p)).filter (!·.isEmpty) =
      pairs.map fun p => Utf8.encodeChars (encodePair p) := by
    rw [List.filter_eq_self]
    intro piece mem
    obtain ⟨p, -, rfl⟩ := List.mem_map.mp mem
    simp [encodeChars_encodePair]
  have read : ∀ p : String × String,
      (decodePart (splitPair (Utf8.encodeChars (encodePair p))).1,
        decodePart (splitPair (Utf8.encodeChars (encodePair p))).2) = p := by
    intro p
    rw [splitPair_encodePair, decodePart_encodePart, decodePart_encodePart]
  rw [parse, splitOn_write empty, kept, List.map_map]
  exact (List.map_congr_left fun p _ => read p).trans (List.map_id pairs)

theorem write_inj {xs ys : List (String × String)} : write xs = write ys ↔ xs = ys := by
  constructor
  · intro same
    rw [← parse_write xs, same, parse_write]
  · exact fun same => same ▸ rfl

theorem mem_of_mem_intersperse {α : Type} {a sep : α} {pieces : List α}
    (h : a ∈ pieces.intersperse sep) : a ∈ pieces ∨ a = sep := by
  induction pieces with
  | nil => exact .inl h
  | cons x rest ih =>
    cases rest with
    | nil => exact .inl h
    | cons y rest =>
      rw [List.intersperse_cons_cons, List.mem_cons, List.mem_cons] at h
      obtain rfl | rfl | h := h
      · exact .inl List.mem_cons_self
      · exact .inr rfl
      · exact (ih h).imp_left (List.mem_cons_of_mem x)

/-- A written query has none of the characters that stand around it. -/
theorem notMem_write {c : Char} (mark : c = ':' ∨ c = '?') (pairs : List (String × String)) :
    c ∉ write pairs := by
  intro mem
  obtain ⟨piece, inside, mem⟩ := List.mem_flatten.mp mem
  obtain inside | rfl := mem_of_mem_intersperse inside
  · obtain ⟨p, -, rfl⟩ := List.mem_map.mp inside
    obtain rfl | rfl := mark <;> exact notMem_encodePair (by decide) (by decide) p mem
  · obtain rfl | rfl := mark <;> simp at mem

end Turnstile.Form
