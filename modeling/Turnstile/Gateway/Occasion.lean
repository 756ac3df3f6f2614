import Turnstile.Calendar
import Turnstile.Text.Ascii

namespace Turnstile

structure Occasion where
  time : Nat
  freshId : String
  deriving DecidableEq, Repr

namespace Occasion

def stamp (o : Occasion) : String := Calendar.stamp o.time

def hexChars (bs : List UInt8) : List Char :=
  bs.flatMap fun b => [Ascii.hexDigit (b.toNat / 16), Ascii.hexDigit (b.toNat % 16)]

/-- A byte with its upper bits, those from `unit` on, replaced. -/
def withUpper (unit upper : Nat) (b : UInt8) : UInt8 := UInt8.ofNat (upper * unit + b.toNat % unit)

/-- The identifier made of sixteen random bytes, two of which are marked as such by their upper
bits. -/
def identifier (random : List UInt8) : String :=
  let bs := (random.modify 6 (withUpper 16 4)).modify 8 (withUpper 64 2)
  let part (start n : Nat) := String.ofList (hexChars ((bs.drop start).take n))
  "-".intercalate [part 0 4, part 4 2, part 6 2, part 8 2, part 10 6]

end Occasion

end Turnstile
