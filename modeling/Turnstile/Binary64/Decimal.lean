import Turnstile.Binary64.Basic

namespace Turnstile

structure Decimal where
  coefficient : Nat
  exponent : Int
  deriving DecidableEq, Repr

namespace Decimal

/-- How many decimal digits a number has; zero has none. -/
def digitCount (n : Nat) : Nat := if n = 0 then 0 else (Nat.toDigits 10 n).length

def ratio (x : Decimal) : Nat × Nat :=
  if 0 ≤ x.exponent then (x.coefficient * Nat.pow 10 x.exponent.toNat, 1)
  else (x.coefficient, Nat.pow 10 (-x.exponent).toNat)

/-- The double nearest to a decimal, or `none` beyond the largest one. Decimals of 310 digits
before the point are beyond it, and those with 330 zeros behind the point are nearest to zero. -/
def toBinary64 (negative : Bool) (x : Decimal) : Option Binary64 :=
  let top := (digitCount x.coefficient : Int) + x.exponent
  if x.coefficient = 0 ∨ top < -330 then some (Binary64.zero negative)
  else if 310 < top then none
  else
    let (n, d) := x.ratio
    Binary64.ofRatio negative n d

/-- A decimal whose coefficient does not end in zero, unless it is zero. -/
def dropZeros (x : Decimal) : Decimal :=
  if h : x.coefficient ≠ 0 ∧ x.coefficient % 10 = 0 then
    dropZeros ⟨x.coefficient / 10, x.exponent + 1⟩
  else x
termination_by x.coefficient
decreasing_by
  omega

end Decimal

namespace Binary64

/-- The least `k` with the magnitude below `10 ^ k`. -/
def decade (x : Binary64) : Int :=
  let (n, d) := x.ratio
  if d ≤ n then (Decimal.digitCount (n / d) : Int)
  else 1 - (Decimal.digitCount ((d - 1) / n) : Int)

def exactDecimal (x : Binary64) : Decimal :=
  if 0 ≤ x.exponent then ⟨x.mantissa * Nat.pow 2 x.exponent.toNat, 0⟩
  else ⟨x.mantissa * Nat.pow 5 (-x.exponent).toNat, x.exponent⟩

/-- The decimal is read as the magnitude of the double. -/
def ReadBack (x : Binary64) (d : Decimal) : Prop :=
  d.toBinary64 false = some x.abs

instance (x : Binary64) (d : Decimal) : Decidable (x.ReadBack d) :=
  inferInstanceAs (Decidable (_ = _))

/-- The decimal on the grid of `10 ^ e` that reads back: the nearer neighbour of the magnitude if it
does, else the other one if that does. An exact tie goes to the even neighbour. -/
def onGrid? (x : Binary64) (e : Int) : Option Decimal :=
  let (n, d) := x.ratio
  let (n, d) := if 0 ≤ e then (n, d * Nat.pow 10 e.toNat) else (n * Nat.pow 10 (-e).toNat, d)
  let below := n / d
  let near := roundDiv n d
  let far := if near = below then below + 1 else below
  if x.ReadBack ⟨near, e⟩ then some ⟨near, e⟩
  else if x.ReadBack ⟨far, e⟩ then some ⟨far, e⟩
  else none

/-- The first decimal that reads back among those of `digits`, `digits + 1`, ... digits, `tries`
lengths in all. -/
def shortestFrom (x : Binary64) : Nat → Nat → Decimal
  | 0, _ => x.exactDecimal
  | tries + 1, digits =>
    match x.onGrid? (x.decade - digits) with
    | some d => d
    | none => x.shortestFrom tries (digits + 1)

/-- The decimal with the fewest digits that reads back as the magnitude; seventeen are always
enough. -/
def shortest (x : Binary64) : Decimal :=
  if x.isZero then ⟨0, 0⟩ else (x.shortestFrom 17 1).dropZeros

end Binary64

end Turnstile
