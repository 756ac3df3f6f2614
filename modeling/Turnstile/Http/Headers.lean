import Turnstile.Text.Ascii

/-!
Header fields: a list in order of arrival. A name may occur more than once and is compared without
regard to the case of its letters.
-/

namespace Turnstile

structure Headers where
  entries : List (String × String)
  deriving DecidableEq, Repr

namespace Headers

def empty : Headers := ⟨[]⟩

def insert (h : Headers) (name value : String) : Headers := ⟨h.entries ++ [(name, value)]⟩

def append (h : Headers) (more : List (String × String)) : Headers := ⟨h.entries ++ more⟩

def getAll (h : Headers) (name : String) : List String :=
  h.entries.filterMap fun f => if Ascii.sameWord f.1 name then some f.2 else none

def get? (h : Headers) (name : String) : Option String :=
  (h.entries.find? fun f => Ascii.sameWord f.1 name).map (·.2)

def contains (h : Headers) (name : String) : Bool := (h.get? name).isSome

def size (h : Headers) : Nat := h.entries.length

def isEmpty (h : Headers) : Bool := h.entries.isEmpty

theorem get?_eq_head?_getAll (h : Headers) (name : String) :
    h.get? name = (h.getAll name).head? := by
  obtain ⟨es⟩ := h
  simp only [get?, getAll]
  induction es with
  | nil => rfl
  | cons f fs ih => by_cases hf : Ascii.sameWord f.1 name = true <;> simp [hf, ih]

end Headers

end Turnstile
