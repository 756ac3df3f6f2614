import Mathlib.Data.List.Induction
import Turnstile.Http.Request

/-!
Lengths that heads declare. `Head.Declares` reads the length of a body off the header lines by
itself: the number of the first `Content-Length` line, if it is one that a length can have, and else
nothing. `declares_iff` says that a connection goes by that.
-/

namespace Turnstile

namespace Ascii

/-- A decimal numeral of any length, with the number that it writes. -/
inductive Numeral : List Char → Nat → Prop
  | digit {c : Char} (isDigit : c.isDigit = true) : Numeral [c] (c.toNat - 0x30)
  | more {cs : List Char} {n : Nat} {c : Char} (numeral : Numeral cs n)
      (isDigit : c.isDigit = true) : Numeral (cs ++ [c]) (n * 10 + (c.toNat - 0x30))

theorem digits?_append (as bs : List Char) :
    digits? (as ++ bs) = (do return (← digits? as) ++ (← digits? bs)) := by
  unfold digits?
  simp [List.mapM_append]

theorem digits?_singleton {c : Char} (isDigit : c.isDigit = true) :
    digits? [c] = some [c.toNat - 0x30] := by
  simp [digits?, isDigit]

theorem ofDigits_append_singleton (ds : List Nat) (d : Nat) :
    ofDigits (ds ++ [d]) = ofDigits ds * 10 + d := by
  simp [ofDigits]

theorem Numeral.digits {cs : List Char} {n : Nat} (h : Numeral cs n) :
    ∃ ds, digits? cs = some ds ∧ ofDigits ds = n := by
  induction h with
  | @digit c isDigit => exact ⟨[c.toNat - 0x30], digits?_singleton isDigit, by simp [ofDigits]⟩
  | @more cs n c _ isDigit ih =>
    obtain ⟨ds, read, value⟩ := ih
    refine ⟨ds ++ [c.toNat - 0x30], ?_, ?_⟩
    · rw [digits?_append, read, digits?_singleton isDigit]
      rfl
    · rw [ofDigits_append_singleton, value]

/-- Any text of digits is a numeral, unless it is empty. -/
theorem numeral_of_digits {cs : List Char} {n : Nat} (nonempty : cs ≠ [])
    (read : (digits? cs).map ofDigits = some n) : Numeral cs n := by
  induction cs using List.reverseRecOn generalizing n with
  | nil => exact absurd rfl nonempty
  | append_singleton cs c ih =>
    rw [digits?_append] at read
    cases first : digits? cs with
    | none => simp [first] at read
    | some ds =>
      by_cases isDigit : c.isDigit = true
      · rw [first, digits?_singleton isDigit] at read
        obtain rfl : ofDigits ds * 10 + (c.toNat - 0x30) = n := by
          rw [← ofDigits_append_singleton]
          simpa using read
        by_cases alone : cs = []
        · subst alone
          obtain rfl : [] = ds := by simpa [digits?] using first
          simpa [ofDigits] using Numeral.digit isDigit
        · exact .more (ih alone (by rw [first]; rfl)) isDigit
      · have refused : digits? [c] = none := by simp [digits?, isDigit]
        simp [first, refused] at read

theorem Numeral.head {cs : List Char} {n : Nat} (h : Numeral cs n) :
    ∃ c later, cs = c :: later ∧ c.isDigit = true := by
  induction h with
  | digit isDigit => exact ⟨_, [], rfl, isDigit⟩
  | more _ _ ih =>
    obtain ⟨c, later, rfl, isDigit⟩ := ih
    exact ⟨c, _, rfl, isDigit⟩

/-- A numeral, or one with a plus in front of it. -/
inductive Written : List Char → Nat → Prop
  | plain {cs : List Char} {n : Nat} (h : Numeral cs n) : Written cs n
  | signed {cs : List Char} {n : Nat} (h : Numeral cs n) : Written ('+' :: cs) n

/-- Of a number that is written only the size matters. -/
theorem natBelow?_of_written {t : String} {n : Nat} (h : Written t.toList n) (bound : Nat) :
    natBelow? bound t = if n < bound then some n else none := by
  unfold natBelow?
  generalize t.toList = text at h
  cases h with
  | plain numeral =>
    obtain ⟨c, later, rfl, isDigit⟩ := numeral.head
    obtain ⟨ds, read, rfl⟩ := numeral.digits
    have unsigned : c ≠ '+' := by
      rintro rfl
      exact absurd isDigit (by decide)
    split
    · next signed => exact absurd (List.cons.inj signed).1 unsigned
    · simp [read]
  | signed numeral =>
    obtain ⟨c, later, rfl, -⟩ := numeral.head
    obtain ⟨ds, read, rfl⟩ := numeral.digits
    simp [read]

theorem written_of_natBelow? {t : String} {n bound : Nat} (h : natBelow? bound t = some n) :
    Written t.toList n ∧ n < bound := by
  unfold natBelow? at h
  generalize t.toList = text at h
  have digits : ∃ cs, (text = '+' :: cs ∨ text = cs) ∧ cs ≠ [] ∧
      ∃ ds, digits? cs = some ds ∧ ofDigits ds < bound ∧ ofDigits ds = n := by
    split at h
    · next cs =>
      refine ⟨cs, .inl rfl, ?_⟩
      grind
    · refine ⟨text, .inr rfl, ?_⟩
      grind
  obtain ⟨cs, sign, some, ds, read, below, rfl⟩ := digits
  have numeral : Numeral cs (ofDigits ds) := numeral_of_digits some (by rw [read]; rfl)
  obtain rfl | rfl := sign
  · exact ⟨.signed numeral, below⟩
  · exact ⟨.plain numeral, below⟩

end Ascii

namespace Head

variable {head : Head} {value : String} {n : Nat}

/-- The first `Content-Length` line of the head has this value. -/
def LengthLine (head : Head) (value : String) : Prop :=
  ∃ before name after, head.headers.entries = before ++ (name, value) :: after ∧
    name.toList.map Char.toLower = "content-length".toList ∧
    ∀ f ∈ before, f.1.toList.map Char.toLower ≠ "content-length".toList

/-- The length of the body that a head declares. A number is no length from `2 ^ 64` on. -/
inductive Declares (head : Head) : Nat → Prop
  | length {value : String} {n : Nat} (line : head.LengthLine value)
    (written : Ascii.Written value.toList n) (below : n < Nat.pow 2 64) : Declares head n
  | nothing (unreadable : ∀ value n, head.LengthLine value → Ascii.Written value.toList n →
      Nat.pow 2 64 ≤ n) : Declares head 0

theorem get?_eq_some_iff : head.headers.get? "content-length" = some value ↔
    head.LengthLine value := by
  have named (f : String × String) : Ascii.sameWord f.1 "content-length" = true ↔
      f.1.toList.map Char.toLower = "content-length".toList := by
    rw [Ascii.sameWord, beq_iff_eq]
    rfl
  unfold Headers.get? LengthLine
  rw [Option.map_eq_some_iff]
  constructor
  · rintro ⟨⟨name, _⟩, found, rfl⟩
    obtain ⟨same, before, after, entries, first⟩ := List.find?_eq_some_iff_append.mp found
    refine ⟨before, name, after, entries, (named _).mp same, ?_⟩
    intro f mem
    rw [Ne, ← named]
    simpa using first f mem
  · rintro ⟨before, name, after, entries, same, first⟩
    refine ⟨(name, value), List.find?_eq_some_iff_append.mpr ?_, rfl⟩
    refine ⟨(named (name, value)).mpr same, before, after, entries, ?_⟩
    intro f mem
    rw [Bool.not_eq_true', Bool.eq_false_iff, Ne, named]
    exact first f mem

/-- What a number declares is a length if a length can be so large, and nothing else. -/
theorem contentLength?_of_written (line : head.LengthLine value)
    (written : Ascii.Written value.toList n) :
    head.contentLength? = if n < lengthBound then some n else none := by
  unfold contentLength?
  rw [get?_eq_some_iff.mpr line]
  exact Ascii.natBelow?_of_written written lengthBound

theorem exists_written (h : head.contentLength? = some n) :
    ∃ value, head.LengthLine value ∧ Ascii.Written value.toList n ∧ n < lengthBound := by
  obtain ⟨value, line, read⟩ := Option.bind_eq_some_iff.mp h
  exact ⟨value, get?_eq_some_iff.mp line, Ascii.written_of_natBelow? read⟩

/-- A head declares one length, and a connection goes by it. -/
theorem declares_iff : head.Declares n ↔ head.contentLength?.getD 0 = n := by
  constructor
  · intro declares
    cases declares with
    | length line written below =>
      rw [contentLength?_of_written line written, if_pos (show n < lengthBound from below)]
      rfl
    | nothing unreadable =>
      cases read : head.contentLength? with
      | none => rfl
      | some n =>
        obtain ⟨value, line, written, below⟩ := exists_written read
        exact absurd below (Nat.not_lt.mpr (unreadable value n line written))
  · rintro rfl
    cases read : head.contentLength? with
    | some n =>
      obtain ⟨value, line, written, below⟩ := exists_written read
      exact .length line written below
    | none =>
      refine .nothing fun value n line written => Nat.not_lt.mp fun below => ?_
      rw [contentLength?_of_written line written,
        if_pos (show n < lengthBound from below)] at read
      cases read

end Head

end Turnstile
