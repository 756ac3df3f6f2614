namespace Turnstile

structure Slots (κ : Type) (V : κ → Type) where
  get? : (k : κ) → Option (V k)

namespace Slots

variable {κ : Type} {V : κ → Type} [DecidableEq κ]

def empty : Slots κ V := ⟨fun _ => none⟩

/-- The record with a value in place of the one of its kind. -/
def insert (s : Slots κ V) (k : κ) (v : V k) : Slots κ V :=
  ⟨fun j => if h : k = j then some (h ▸ v) else s.get? j⟩

def erase (s : Slots κ V) (k : κ) : Slots κ V :=
  ⟨fun j => if k = j then none else s.get? j⟩

@[simp] theorem get?_insert_self (s : Slots κ V) (k : κ) (v : V k) :
    (s.insert k v).get? k = some v := by simp [insert]

theorem get?_insert_of_ne (s : Slots κ V) {k j : κ} (h : k ≠ j) (v : V k) :
    (s.insert k v).get? j = s.get? j := by simp [insert, h]

end Slots

end Turnstile
