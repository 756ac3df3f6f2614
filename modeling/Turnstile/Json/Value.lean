import Turnstile.Binary64.Basic
import Turnstile.Keyed

/-!
JSON values. A number is an integer of 64 bits or a double; an object keeps its members in a list,
sorted and without repeated keys when it was read from a text, in the order of a record's fields
when it is about to be written.
-/

namespace Turnstile.Json

/-- A number: an integer from `-2 ^ 63` to `2 ^ 64 - 1`, or a double. -/
inductive Number where
  | integer (i : Int)
  | double (x : Binary64)
  deriving DecidableEq, Repr

inductive Value where
  | null
  | bool (b : Bool)
  | number (n : Number)
  | string (s : String)
  | array (items : List Value)
  | object (members : List (String × Value))
  deriving Repr

namespace Number

/-- The integers of a number are below this one. -/
def bound : Nat := Nat.pow 2 64

/-- Signed words of 64 bits are below this integer, and not below its negative. -/
def signedBound : Nat := Nat.pow 2 63

/-- Both are integers or both are doubles, and the numbers are equal. -/
def same : Number → Number → Bool
  | .integer i, .integer j => i == j
  | .double x, .double y => x.same y
  | _, _ => false

def isZero : Number → Bool
  | .integer i => i == 0
  | .double x => x.isZero

/-- The integer, if it fits a signed word of 64 bits. -/
def signed? : Number → Option Int
  | .integer i => if i < signedBound then some i else none
  | .double _ => none

/-- The integer, if it is a natural number below the bound. -/
def natBelow? (bound : Nat) : Number → Option Nat
  | .integer i => if 0 ≤ i ∧ i.toNat < bound then some i.toNat else none
  | .double _ => none

end Number

mutual

/-- Equality of values. Integers and doubles are told apart, the two zero doubles are not. -/
def Value.same : Value → Value → Bool
  | .null, .null => true
  | .bool a, .bool b => a == b
  | .number m, .number n => m.same n
  | .string s, .string t => s == t
  | .array xs, .array ys => sameItems xs ys
  | .object xs, .object ys => sameMembers xs ys
  | _, _ => false

def sameItems : List Value → List Value → Bool
  | [], [] => true
  | x :: xs, y :: ys => x.same y && sameItems xs ys
  | _, _ => false

def sameMembers : List (String × Value) → List (String × Value) → Bool
  | [], [] => true
  | (k, x) :: xs, (l, y) :: ys => k == l && x.same y && sameMembers xs ys
  | _, _ => false

end

namespace Value

def asString? : Value → Option String
  | .string s => some s
  | _ => none

def asArray? : Value → Option (List Value)
  | .array items => some items
  | _ => none

def asObject? : Value → Option (List (String × Value))
  | .object members => some members
  | _ => none

def ofNat (n : Nat) : Value := .number (.integer n)

def ofText? : Option String → Value
  | some s => .string s
  | none => .null

end Value

end Turnstile.Json
