import Mathlib.Data.List.DropRight
import Turnstile.Text.Blank

namespace Turnstile.Text

theorem trimChars_eq (s : List Char) :
    trimChars s = (s.dropWhile isBlank).rdropWhile isBlank := rfl

theorem trimChars_sublist (s : List Char) : (trimChars s).Sublist s := by
  rw [trimChars_eq]
  exact (List.rdropWhile_prefix isBlank _).sublist.trans (List.dropWhile_sublist isBlank)

/-- A front of a list that starts without a blank starts without one. -/
theorem dropWhile_of_front {s u : List Char} (front : u <+: s)
    (h : s.dropWhile isBlank = s) : u.dropWhile isBlank = u := by
  cases u with
  | nil => rfl
  | cons c u =>
    obtain ⟨back, rfl⟩ := front
    rw [List.cons_append, List.dropWhile_eq_self_iff] at h
    apply List.dropWhile_cons_of_neg
    exact h (by simp)

theorem trimChars_trimChars (s : List Char) : trimChars (trimChars s) = trimChars s := by
  have front : (trimChars s).dropWhile isBlank = trimChars s := by
    apply dropWhile_of_front (s := s.dropWhile isBlank)
    · rw [trimChars_eq]
      exact List.rdropWhile_prefix isBlank _
    · exact List.dropWhile_idempotent isBlank s
  rw [trimChars_eq (trimChars s), front, trimChars_eq]
  exact List.rdropWhile_idempotent isBlank _

/-- How many characters of a list are no blanks. -/
def solid (s : List Char) : Nat := s.countP (!isBlank ·)

theorem solid_append (s u : List Char) : solid (s ++ u) = solid s + solid u := List.countP_append

theorem solid_cons (c : Char) (s : List Char) : solid (c :: s) = solid [c] + solid s :=
  solid_append [c] s

theorem solid_singleton_le (c : Char) : solid [c] ≤ 1 := List.countP_le_length

theorem solid_eq_length {s : List Char} (h : ∀ c ∈ s, isBlank c = false) :
    solid s = s.length := by
  unfold solid
  rw [List.countP_eq_length]
  intro c mem
  rw [h c mem]
  rfl

theorem solid_dropWhile (s : List Char) : solid (s.dropWhile isBlank) = solid s := by
  induction s with
  | nil => rfl
  | cons c s ih =>
    by_cases blank : isBlank c = true
    · rw [List.dropWhile_cons_of_pos blank, ih]
      unfold solid
      rw [List.countP_cons_of_neg (by simp [blank])]
    · rw [List.dropWhile_cons_of_neg blank]

theorem solid_trimChars (s : List Char) : solid (trimChars s) = solid s := by
  have reversed (s : List Char) : solid s.reverse = solid s := List.countP_reverse
  rw [trimChars, reversed, solid_dropWhile, reversed, solid_dropWhile]

end Turnstile.Text
