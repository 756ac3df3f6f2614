import Turnstile.Binary64.Decimal
import Turnstile.Text.Ascii

/-!
Doubles as they are written in settings: a sign, digits with a point among them or at either end,
and a power of ten.
-/

namespace Turnstile

namespace Decimal

/-- A sign at the front, if there is one: whether it is a minus, and what follows. -/
def splitSign : List Char → Bool × List Char
  | '-' :: cs => (true, cs)
  | '+' :: cs => (false, cs)
  | cs => (false, cs)

def splitDigits (cs : List Char) : List Char × List Char :=
  (cs.takeWhile Char.isDigit, cs.dropWhile Char.isDigit)

/-- The fraction at the front, if there is one, and what follows it. -/
def splitFraction : List Char → List Char × List Char
  | '.' :: cs => splitDigits cs
  | cs => ([], cs)

/-- The number that characters write, if all of them are digits and there is at least one. -/
def natural? (cs : List Char) : Option Nat :=
  if cs.isEmpty then none else (Ascii.digits? cs).map Ascii.ofDigits

/-- The power of ten behind the digits; without one it is zero. -/
def power? : List Char → Option Int
  | [] => some 0
  | c :: cs =>
    if c = 'e' ∨ c = 'E' then
      let (negative, ds) := splitSign cs
      (natural? ds).map fun n => if negative then -(n : Int) else n
    else none

def magnitude? (cs : List Char) : Option Decimal := do
  let (whole, cs) := splitDigits cs
  let (fraction, cs) := splitFraction cs
  let n ← natural? (whole ++ fraction)
  let e ← power? cs
  return ⟨n, e - fraction.length⟩

end Decimal

/-- The double nearest to the number that a text writes. A number beyond the largest double has
none, and neither has a text that writes no finite number. -/
def Binary64.parse? (t : String) : Option Binary64 := do
  let (negative, cs) := Decimal.splitSign t.toList
  let magnitude ← Decimal.magnitude? cs
  magnitude.toBinary64 negative

end Turnstile
