namespace Turnstile.Text

/-- The code points with the property White_Space. -/
def isBlank (c : Char) : Bool :=
  let n := c.toNat
  (0x09 ≤ n && n ≤ 0x0D) || n == 0x20 || n == 0x85 || n == 0xA0 || n == 0x1680
    || (0x2000 ≤ n && n ≤ 0x200A) || n == 0x2028 || n == 0x2029 || n == 0x202F || n == 0x205F
    || n == 0x3000

/-- A list of characters without the blanks at both ends. -/
def trimChars (cs : List Char) : List Char :=
  ((cs.dropWhile isBlank).reverse.dropWhile isBlank).reverse

def trim (t : String) : String := String.ofList (trimChars t.toList)

/-- The trimmed text, unless nothing is left of it. -/
def nonBlank? (t : String) : Option String :=
  let u := trim t
  if u.isEmpty then none else some u

/-- A list without blanks stays as it is. -/
theorem trimChars_of_forall {s : List Char} (h : ∀ c ∈ s, isBlank c = false) :
    trimChars s = s := by
  have kept {s : List Char} (h : ∀ c ∈ s, isBlank c = false) :
      s.dropWhile isBlank = s := by
    cases s with
    | nil => rfl
    | cons c s => rw [List.dropWhile_cons_of_neg (by simp [h c])]
  rw [trimChars, kept h, kept, List.reverse_reverse]
  intro c mem
  exact h c (List.mem_reverse.mp mem)

end Turnstile.Text
