/-!
Finite doubles as exact numbers. Every operation is exact arithmetic followed by one rounding to
the nearest double, a half going to the even mantissa.
-/

namespace Turnstile

/-- The finite double `mantissa * 2 ^ exponent`, negated if `negative`. Rounding produces mantissas
below `2 ^ 53`, and below `2 ^ 52` only at the least exponent, so each magnitude has one form. -/
structure Binary64 where
  negative : Bool
  mantissa : Nat
  exponent : Int
  deriving DecidableEq, Repr

namespace Binary64

/-- The least exponent, that of the subnormal doubles. -/
def leastExponent : Int := -1074

/-- The exponent of the largest doubles. -/
def greatestExponent : Int := 971

/-- The least mantissa of the doubles that are not subnormal. -/
def leastNormal : Nat := Nat.pow 2 52

def zero (negative : Bool) : Binary64 := ⟨negative, 0, leastExponent⟩

/-- A quotient rounded to the nearest natural number, a half to the even one. -/
def roundDiv (num den : Nat) : Nat :=
  let q := num / den
  let r := num % den
  if 2 * r < den then q
  else if den < 2 * r then q + 1
  else q + q % 2

/-- The fraction `num / den` divided by `2 ^ e`. -/
def unscale (num den : Nat) (e : Int) : Nat × Nat :=
  if 0 ≤ e then (num, den * Nat.pow 2 e.toNat) else (num * Nat.pow 2 (-e).toNat, den)

/-- The exponent at which `num / den` has a mantissa of 53 bits, or the least one. -/
def exponentFor (num den : Nat) : Int :=
  let guess : Int := (num.log2 : Int) - (den.log2 : Int) - 52
  let (n, d) := unscale num den guess
  let e := if n < d * leastNormal then guess - 1 else guess
  max e leastExponent

/-- The double nearest to `num / den`, or `none` if that lies beyond the largest one. -/
def ofRatio (negative : Bool) (num den : Nat) : Option Binary64 :=
  if num = 0 then some (zero negative)
  else
    let e := exponentFor num den
    let (n, d) := unscale num den e
    let m := roundDiv n d
    let x : Binary64 := if m = 2 * leastNormal then ⟨negative, leastNormal, e + 1⟩ else ⟨negative, m, e⟩
    if greatestExponent < x.exponent then none else some x

def ratio (x : Binary64) : Nat × Nat :=
  if 0 ≤ x.exponent then (x.mantissa * Nat.pow 2 x.exponent.toNat, 1)
  else (x.mantissa, Nat.pow 2 (-x.exponent).toNat)

def isZero (x : Binary64) : Bool := x.mantissa == 0

def abs (x : Binary64) : Binary64 := { x with negative := false }

/-- The double nearest to an integer. The integers that occur have at most 64 bits, far from the
largest double. -/
def ofNat (negative : Bool) (n : Nat) : Binary64 :=
  (ofRatio negative n 1).getD (zero negative)

def mul (x y : Binary64) : Option Binary64 :=
  let (a, b) := x.ratio
  let (c, d) := y.ratio
  ofRatio (x.negative != y.negative) (a * c) (b * d)

def div (x y : Binary64) : Option Binary64 :=
  let (a, b) := x.ratio
  let (c, d) := y.ratio
  ofRatio (x.negative != y.negative) (a * d) (b * c)

def isIntegral (x : Binary64) : Bool :=
  let (n, d) := x.ratio
  n % d == 0

def floor (x : Binary64) : Int :=
  let (n, d) := x.ratio
  if x.negative then -(((n + d - 1) / d : Nat) : Int) else ((n / d : Nat) : Int)

/-- The integer reached by dropping the fraction. -/
def truncate (x : Binary64) : Int :=
  let (n, d) := x.ratio
  if x.negative then -((n / d : Nat) : Int) else ((n / d : Nat) : Int)

/-- The magnitude is below a natural number. -/
def absBelow (x : Binary64) (bound : Nat) : Bool :=
  let (n, d) := x.ratio
  n < bound * d

/-- Equality of the numbers: the two zeros are one number. -/
def same (x y : Binary64) : Bool :=
  x == y || (x.isZero && y.isZero)

end Binary64

end Turnstile
