import Turnstile.Clock

/-!
Computations on shared state. One may be cut short because a deadline lies beyond the end of the
clock; what it has done to the state until then stays.
-/

namespace Turnstile

/-- From a state to a result, or to the end of the clock, and the state left behind. -/
def Run (σ α : Type) := σ → Except ClockOverflow α × σ

namespace Run

instance {σ : Type} : Monad (Run σ) where
  pure a := fun s => (.ok a, s)
  bind x f := fun s =>
    match x s with
    | (.ok a, t) => f a t
    | (.error e, t) => (.error e, t)

def state {σ : Type} : Run σ σ := fun s => (.ok s, s)

def modify {σ : Type} (f : σ → σ) : Run σ Unit := fun s => (.ok (), f s)

/-- A step that gives its result and the state after it. -/
def step {σ α : Type} (f : σ → α × σ) : Run σ α := fun s =>
  let (a, t) := f s
  (.ok a, t)

@[simp] theorem pure_apply {σ α : Type} (a : α) (s : σ) : (pure a : Run σ α) s = (.ok a, s) := rfl

theorem bind_apply {σ α β : Type} (x : Run σ α) (f : α → Run σ β) (s : σ) :
    (x >>= f) s =
      match x s with
      | (.ok a, t) => f a t
      | (.error e, t) => (.error e, t) := rfl

theorem bind_of_ok {σ α β : Type} {x : Run σ α} {s t : σ} {a : α} (h : x s = (.ok a, t))
    (f : α → Run σ β) : (x >>= f) s = f a t := by simp [bind_apply, h]

theorem bind_of_error {σ α β : Type} {x : Run σ α} {s t : σ} {e : ClockOverflow}
    (h : x s = (.error e, t)) (f : α → Run σ β) : (x >>= f) s = (.error e, t) := by
  simp [bind_apply, h]

end Run

/-- A part of a state that can be read and replaced by itself. -/
structure Part (σ τ : Type) where
  get : σ → τ
  set : τ → σ → σ
  get_set : ∀ t s, get (set t s) = t := by intros; rfl
  set_get : ∀ s, set (get s) s = s := by intros; rfl
  set_set : ∀ t u s, set t (set u s) = set t s := by intros; rfl

namespace Part

/-- The whole state as a part of itself. -/
def whole {σ : Type} : Part σ σ where
  get s := s
  set t _ := t

/-- A part of a part. -/
def inside {σ τ υ : Type} (outer : Part σ τ) (inner : Part τ υ) : Part σ υ where
  get s := inner.get (outer.get s)
  set u s := outer.set (inner.set u (outer.get s)) s
  get_set u s := by rw [outer.get_set, inner.get_set]
  set_get s := by rw [inner.set_get, outer.set_get]
  set_set u v s := by rw [outer.get_set, inner.set_set, outer.set_set]

def run {σ τ α : Type} (part : Part σ τ) (x : Run τ α) : Run σ α := fun s =>
  match x (part.get s) with
  | (r, t) => (r, part.set t s)

end Part

end Turnstile
