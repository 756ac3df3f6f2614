import Turnstile.Clock

namespace Turnstile

structure Schedule where
  start : Nat
  period : Nat
  deriving DecidableEq, Repr

namespace Schedule

/-- The last time at or before an instant, of those at or after the start. -/
def lastBy (s : Schedule) (now : Nat) : Nat :=
  s.start + (now - s.start) / s.period * s.period

/-- The last time behind `before` and not behind `now`, if there is one. -/
def due? (s : Schedule) (before now : Nat) : Option Nat :=
  if before < s.lastBy now then some (s.lastBy now) else none

end Schedule

end Turnstile
