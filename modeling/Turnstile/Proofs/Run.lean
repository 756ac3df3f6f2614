import Turnstile.Run

/-!
Laws of computations on shared state, and four things to say of one: that it comes to an end, that
it leaves something of the state as it is, that it keeps what holds of the state, and that it does
not see what sets two states apart.
-/

namespace Turnstile.Run

variable {σ τ α β γ : Type}

theorem map_apply (f : α → β) (x : Run σ α) (s : σ) :
    (f <$> x) s =
      match x s with
      | (.ok a, t) => (.ok (f a), t)
      | (.error e, t) => (.error e, t) := rfl

instance : LawfulMonad (Run σ) := LawfulMonad.mk' (Run σ)
  (by
    intro α x
    funext s
    show (x >>= fun a => pure a) s = x s
    rw [bind_apply]
    rcases x s with ⟨_ | a, t⟩ <;> rfl)
  (by intros; rfl)
  (by
    intro α β γ x f g
    funext s
    simp only [bind_apply]
    rcases x s with ⟨_ | a, t⟩ <;> rfl)

theorem bind_eq_ok {x : Run σ α} {f : α → Run σ β} {s u : σ} {b : β} :
    (x >>= f) s = (.ok b, u) ↔ ∃ a t, x s = (.ok a, t) ∧ f a t = (.ok b, u) := by
  rw [bind_apply]
  constructor
  · intro h
    rcases hs : x s with ⟨_ | a, t⟩
    · rw [hs] at h
      cases h
    · rw [hs] at h
      exact ⟨a, t, rfl, h⟩
  · rintro ⟨a, t, hs, h⟩
    rwa [hs]

theorem discard_eq (x : Run σ α) : discard x = x >>= fun _ => pure () := rfl

theorem snd_bind_pure (x : Run σ α) (f : α → β) (s : σ) :
    ((x >>= fun a => pure (f a)) s).2 = (x s).2 := by
  rw [bind_apply]
  rcases x s with ⟨_ | a, t⟩ <;> rfl

/-- From the state `s` the computation comes to an end, with such a result and such a state. -/
def Ends (x : Run σ α) (s : σ) (Q : α → σ → Prop) : Prop := ∃ a t, x s = (.ok a, t) ∧ Q a t

section Ends

variable {s : σ} {Q : α → σ → Prop}

theorem Ends.mono {P : α → σ → Prop} {x : Run σ α} (h : x.Ends s P) (imp : ∀ a t, P a t → Q a t) :
    x.Ends s Q := by
  obtain ⟨a, t, eq, holds⟩ := h
  exact ⟨a, t, eq, imp a t holds⟩

theorem ends_pure {a : α} (h : Q a s) : (pure a : Run σ α).Ends s Q := ⟨a, s, rfl, h⟩

theorem Ends.bind {P : β → σ → Prop} {x : Run σ α} {f : α → Run σ β}
    (h : x.Ends s fun a t => (f a).Ends t P) : (x >>= f).Ends s P := by
  obtain ⟨a, t, eq, b, u, next, holds⟩ := h
  exact ⟨b, u, (bind_of_ok eq f).trans next, holds⟩

end Ends

/-- The computation leaves this of the state as it is, however it goes. -/
def Keeps (f : σ → τ) (x : Run σ α) : Prop := ∀ s, f (x s).2 = f s

theorem keeps_pure (f : σ → τ) (a : α) : Keeps f (pure a : Run σ α) := fun _ => rfl

theorem Keeps.bind {f : σ → τ} {x : Run σ α} {g : α → Run σ β} (hx : Keeps f x)
    (hg : ∀ a, Keeps f (g a)) : Keeps f (x >>= g) := by
  intro s
  have first := hx s
  rw [bind_apply]
  rcases hs : x s with ⟨_ | a, t⟩
  · rwa [hs] at first
  · rw [hs] at first
    exact (hg a t).trans first

/-- What holds of the state before the computation holds after it, however it goes. -/
def Maintains (P : σ → Prop) (x : Run σ α) : Prop := ∀ s, P s → P (x s).2

section Maintains

variable {P : σ → Prop}

theorem maintains_pure (P : σ → Prop) (a : α) : Maintains P (pure a : Run σ α) := fun _ h => h

theorem Maintains.bind {x : Run σ α} {f : α → Run σ β} (hx : Maintains P x)
    (hf : ∀ a, Maintains P (f a)) : Maintains P (x >>= f) := by
  intro s holds
  have first := hx s holds
  rw [bind_apply]
  rcases hs : x s with ⟨_ | a, t⟩
  · rwa [hs] at first
  · rw [hs] at first
    exact hf a t first

theorem Maintains.discard {x : Run σ α} (hx : Maintains P x) : Maintains P (Functor.discard x) :=
  hx.bind fun _ => maintains_pure P ()

end Maintains

/-- From states that are alike the computation comes to results of which the same can be seen, and
to states that are alike again. -/
def Alike (R : σ → σ → Prop) (see : α → β) (x : Run σ α) : Prop :=
  ∀ s t, R s t → (x s).1.map see = (x t).1.map see ∧ R (x s).2 (x t).2

section Alike

variable {R : σ → σ → Prop}

theorem alike_pure (see : α → β) (a : α) : Alike R see (pure a : Run σ α) :=
  fun _ _ alike => ⟨rfl, alike⟩

theorem Alike.bind {see : β → γ} {x : Run σ α} {f : α → Run σ β} (hx : Alike R id x)
    (hf : ∀ a, (∃ s t, x s = (.ok a, t)) → Alike R see (f a)) : Alike R see (x >>= f) := by
  intro s t alike
  obtain ⟨same, alike⟩ := hx s t alike
  simp only [bind_apply]
  rcases hs : x s with ⟨⟨⟩ | a, s'⟩ <;> rcases ht : x t with ⟨⟨⟩ | b, t'⟩ <;>
    rw [hs, ht] at same alike
  · exact ⟨rfl, alike⟩
  · cases same
  · cases same
  · cases same
    exact hf a ⟨s, s', hs⟩ s' t' alike

/-- Less can be seen of a result than of what it is made from. -/
theorem Alike.map {δ : Type} {see : α → γ} {see' : β → δ} {x : Run σ α} {f : α → β}
    (h : Alike R see x) (dim : ∀ a b, see a = see b → see' (f a) = see' (f b)) :
    Alike R see' (x >>= fun a => pure (f a)) := by
  intro s t alike
  obtain ⟨same, alike⟩ := h s t alike
  simp only [bind_apply]
  rcases hs : x s with ⟨⟨⟩ | a, s'⟩ <;> rcases ht : x t with ⟨⟨⟩ | b, t'⟩ <;>
    rw [hs, ht] at same alike
  · exact ⟨rfl, alike⟩
  · cases same
  · cases same
  · refine ⟨?_, alike⟩
    have seen : see a = see b := by simpa only [Except.map, Except.ok.injEq] using same
    simp only [pure_apply, Except.map, dim a b seen]

end Alike

end Turnstile.Run
