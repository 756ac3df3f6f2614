import Turnstile.Binary64.Decimal
import Turnstile.Json.Value
import Turnstile.Text.Ascii

/-!
Numerals of a JSON text and the numbers they stand for.

A numeral without fraction or exponent that fits 64 bits is an integer. Every other one is a double
found in two roundings: the leading digits, as many as fit an unsigned word of 64 bits, give the
significand; the digits after them and the exponent give a power of ten; the double next to the
significand is multiplied or divided by the double next to that power.
-/

namespace Turnstile.Json

structure Exponent where
  negative : Bool
  digits : List Nat
  deriving DecidableEq, Repr

/-- A numeral as written. Without a point the fraction has no digits. -/
structure Numeral where
  negative : Bool
  whole : List Nat
  fraction : List Nat
  exponent : Option Exponent
  deriving DecidableEq, Repr

/-- The digits that a significand takes up before it would leave 64 bits, and those left over. -/
def takeDigits (significand : Nat) : List Nat → Nat × List Nat
  | [] => (significand, [])
  | d :: ds =>
    if significand * 10 + d < Number.bound then takeDigits (significand * 10 + d) ds
    else (significand, d :: ds)

/-- The largest power of ten that is a double. -/
def greatestPower : Nat := 308

/-- The double next to a power of ten up to the largest one. -/
@[irreducible] def powerOfTen (k : Nat) : Binary64 := Binary64.ofNat false (Nat.pow 10 k)

/-- A double divided by the largest power of ten so many times, then once by `10 ^ last`; a
quotient that has become zero stays zero. -/
def divideBy (x : Binary64) (last : Nat) : Nat → Option Binary64
  | 0 => x.div (powerOfTen last)
  | steps + 1 =>
    if x.isZero then some x
    else
      match x.div (powerOfTen greatestPower) with
      | some y => divideBy y last steps
      | none => none

/-- A double divided by `10 ^ k`. -/
def scaleDown (x : Binary64) (k : Nat) : Option Binary64 :=
  let steps := (k - 1) / greatestPower
  divideBy x (k - greatestPower * steps) steps

/-- A double multiplied by `10 ^ k`, unless the product is too large. -/
def scaleUp (x : Binary64) (k : Nat) : Option Binary64 :=
  if k ≤ greatestPower then x.mul (powerOfTen k)
  else if x.isZero then some x
  else none

def scale (negative : Bool) (significand : Nat) (e : Int) : Option Binary64 :=
  let x := Binary64.ofNat negative significand
  if 0 ≤ e then scaleUp x e.toNat else scaleDown x (-e).toNat

namespace Numeral

/-- The exponent as an integer, zero if none is written. -/
def exponentValue (n : Numeral) : Int :=
  match n.exponent with
  | none => 0
  | some e => if e.negative then -(Ascii.ofDigits e.digits : Int) else Ascii.ofDigits e.digits

/-- The number of a numeral with a fraction, an exponent or more than 64 bits. -/
def toDouble? (n : Numeral) : Option Binary64 :=
  let (s, overWhole) := takeDigits 0 n.whole
  let (s, overFraction) := takeDigits s n.fraction
  let shift : Int := overWhole.length - (n.fraction.length - overFraction.length)
  scale n.negative s (shift + n.exponentValue)

/-- The number, or `none` if it lies beyond the doubles. The integer `-0` is the double. -/
def toNumber? (n : Numeral) : Option Number :=
  if n.fraction.isEmpty && n.exponent.isNone then
    let v := Ascii.ofDigits n.whole
    if n.negative = false ∧ v < Number.bound then some (.integer v)
    else if n.negative = true ∧ 0 < v ∧ v ≤ Number.signedBound then some (.integer (-v))
    else n.toDouble?.map .double
  else n.toDouble?.map .double

end Numeral

end Turnstile.Json
