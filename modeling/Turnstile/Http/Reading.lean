/-!
Reading from the front of a byte stream that may not have arrived in full. A reading is finished,
asks for more bytes, or finds a fault; what it has found does not change when more bytes arrive.
-/

namespace Turnstile

inductive HeadFault where
  | headerName
  | headerValue
  | newLine
  | token
  | tooManyHeaders
  | version
  deriving DecidableEq, Repr

def HeadFault.message : HeadFault → String
  | .headerName => "invalid header name"
  | .headerValue => "invalid header value"
  | .newLine => "invalid new line"
  | .token => "invalid token"
  | .tooManyHeaders => "too many headers"
  | .version => "invalid HTTP version"

inductive Reading (α : Type) where
  | done (value : α) (rest : List UInt8)
  | incomplete
  | invalid (fault : HeadFault)
  deriving DecidableEq, Repr

/-- A reading as a function of the bytes that have arrived. -/
abbrev Reader (α : Type) := List UInt8 → Reading α

namespace Reading

def map {α β : Type} (f : α → β) : Reading α → Reading β
  | .done a s => .done (f a) s
  | .incomplete => .incomplete
  | .invalid e => .invalid e

def bind {α β : Type} (r : Reading α) (f : α → Reader β) : Reading β :=
  match r with
  | .done a s => f a s
  | .incomplete => .incomplete
  | .invalid e => .invalid e

/-- The outcome when the bytes `more` stand behind those that have arrived. -/
def extend {α : Type} (more : List UInt8) : Reading α → Reading α
  | .done a s => .done a (s ++ more)
  | .incomplete => .incomplete
  | .invalid e => .invalid e

end Reading

namespace Reader

/-- What the reader has found does not depend on bytes behind the ones it has read. -/
def Stable {α : Type} (r : Reader α) : Prop :=
  ∀ s more, r s ≠ .incomplete → r (s ++ more) = (r s).extend more

theorem Stable.bind {α β : Type} {r : Reader α} {f : α → Reader β} (hr : r.Stable)
    (hf : ∀ a, Stable (f a)) : Stable fun s => (r s).bind f := by
  intro s more h
  show (r (s ++ more)).bind f = ((r s).bind f).extend more
  replace h : (r s).bind f ≠ .incomplete := h
  cases hs : r s with
  | done a rest =>
    rw [hr s more (by simp [hs]), hs]
    exact hf a rest more (by simpa [hs, Reading.bind] using h)
  | incomplete => simp [hs, Reading.bind] at h
  | invalid e =>
    rw [hr s more (by simp [hs]), hs]
    rfl

/-- The bytes up to a stop, which is taken too; other bytes must be acceptable. -/
def upTo (accept : UInt8 → Bool) (stop : UInt8) (fault : HeadFault) : Reader (List UInt8)
  | [] => .incomplete
  | b :: s =>
    if b == stop then .done [] s
    else if accept b then (upTo accept stop fault s).map (b :: ·)
    else .invalid fault

/-- As `upTo`, with one byte or more before the stop. -/
def upTo1 (accept : UInt8 → Bool) (stop : UInt8) (fault : HeadFault) : Reader (List UInt8) :=
  fun s => (upTo accept stop fault s).bind fun bs rest =>
    if bs.isEmpty then .invalid fault else .done bs rest

/-- Bytes that must stand at the front. -/
def literal (fault : HeadFault) : List UInt8 → Reader Unit
  | [], s => .done () s
  | _ :: _, [] => .incomplete
  | w :: ws, b :: s => if b == w then literal fault ws s else .invalid fault

/-- A line feed, perhaps behind a carriage return. -/
def lineEnd : Reader Unit
  | [] => .incomplete
  | 0x0A :: s => .done () s
  | [0x0D] => .incomplete
  | 0x0D :: 0x0A :: s => .done () s
  | _ :: _ => .invalid .newLine

end Reader

end Turnstile
