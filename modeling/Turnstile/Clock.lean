/-!
The clock. Instants are natural numbers, the nanoseconds since the clock started, and so are
durations. The clock ends after `2 ^ 63` seconds, and a deadline beyond that cannot be set.
-/

namespace Turnstile

inductive ClockOverflow where
  | mk
  deriving DecidableEq, Repr

def ClockOverflow.message : ClockOverflow → String
  | .mk => "overflow when adding duration to instant"

namespace Clock

def second : Nat := 1000000000

def millisecond : Nat := 1000000

def microsecond : Nat := 1000

def maxDuration : Nat := Nat.pow 2 64 * second - 1

/-- The end of the clock. -/
def horizon : Nat := Nat.pow 2 63 * second

/-- The deadline a duration after an instant. -/
def after (now : Nat) (d : Nat) : Except ClockOverflow Nat :=
  if now + d < horizon then .ok (now + d) else .error .mk

/-- A duration in seconds, counted by its whole milliseconds and rounded up. -/
def wholeSeconds (d : Nat) : Nat := (d / millisecond + 999) / 1000

/-- A duration as seconds with nine decimal places. -/
def text (d : Nat) : String :=
  let fraction := Nat.toDigits 10 (d % second)
  toString (d / second) ++ "."
    ++ String.ofList (List.replicate (9 - fraction.length) '0' ++ fraction)

theorem after_eq_ok {now : Nat} {d : Nat} (h : now + d < horizon) :
    after now d = .ok (now + d) := by simp [after, h]

end Clock

end Turnstile
