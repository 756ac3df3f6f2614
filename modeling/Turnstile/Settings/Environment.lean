import Turnstile.Binary64.Notation
import Turnstile.Clock
import Turnstile.Text.Blank

namespace Turnstile

/-- The text of each variable that is set. -/
abbrev Environment := String → Option String

namespace Environment

/-- The value of a variable without blanks at its ends. A blank one counts as not set. -/
def value? (env : Environment) (name : String) : Option String :=
  (env name).bind Text.nonBlank?

/-- The number that a value writes, or another one if it writes none. -/
def number (value : Option String) (fallback : Binary64) : Binary64 :=
  (value.bind Binary64.parse?).getD fallback

end Environment

namespace Binary64

/-- The integer part as a count of at most `bound`; no count is below zero. -/
def toCount (bound : Nat) (x : Binary64) : Nat := min x.floor.toNat bound

/-- The nearest duration to a number of seconds, a half going to the even nanosecond. No duration is
below zero, and seconds beyond the longest one stand for that. -/
def toDuration (x : Binary64) : Nat :=
  if x.negative then 0
  else
    let (n, d) := x.ratio
    min (roundDiv (n * Clock.second) d) Clock.maxDuration

end Binary64

end Turnstile
