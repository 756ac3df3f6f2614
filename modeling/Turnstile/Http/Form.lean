import Turnstile.Text.Ascii
import Turnstile.Text.Utf8

/-!
Query strings as lists of name and value pairs. Pieces stand between ampersands and are split at
the first equals sign; a plus is a space and `%` starts a byte in hexadecimal.
-/

namespace Turnstile.Form

/-- The bytes that a list of bytes stands for. A `%` without two hexadecimal digits stays. -/
def percentDecode : List UInt8 → List UInt8
  | [] => []
  | 0x25 :: a :: b :: s =>
    match Ascii.hexValue? a, Ascii.hexValue? b with
    | some m, some n => UInt8.ofNat (m * 16 + n) :: percentDecode s
    | _, _ => 0x25 :: percentDecode (a :: b :: s)
  | b :: s => b :: percentDecode s
termination_by s => s.length

def plusToSpace (b : UInt8) : UInt8 := if b == 0x2B then 0x20 else b

/-- The text of a name or value; ill-formed pieces of it become marks. -/
def decodePart (s : List UInt8) : String := Utf8.lossy (percentDecode (s.map plusToSpace))

/-- A piece split at its first equals sign; without one the value is empty. -/
def splitPair (s : List UInt8) : List UInt8 × List UInt8 :=
  (s.takeWhile (· != 0x3D), (s.dropWhile (· != 0x3D)).drop 1)

def parse (s : List UInt8) : List (String × String) :=
  ((s.splitOn 0x26).filter (!·.isEmpty)).map fun piece =>
    let (name, value) := splitPair piece
    (decodePart name, decodePart value)

/-- The bytes that are written as they are. -/
def isPlain (b : UInt8) : Bool :=
  (0x30 ≤ b && b ≤ 0x39) || (0x41 ≤ b && b ≤ 0x5A) || (0x61 ≤ b && b ≤ 0x7A)
    || b == 0x2A || b == 0x2D || b == 0x2E || b == 0x5F

def encodeByte (b : UInt8) : List Char :=
  if isPlain b then [Char.ofNat b.toNat]
  else if b == 0x20 then ['+']
  else ['%', Ascii.hexDigitUpper (b.toNat / 16), Ascii.hexDigitUpper (b.toNat % 16)]

/-- The written form of a name or value. -/
def encodePart (t : String) : List Char := (Utf8.encode t).flatMap encodeByte

def encodePair (p : String × String) : List Char := encodePart p.1 ++ '=' :: encodePart p.2

def write (pairs : List (String × String)) : List Char :=
  ['&'].intercalate (pairs.map encodePair)

end Turnstile.Form
