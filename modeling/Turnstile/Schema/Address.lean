import Turnstile.Bits

namespace Turnstile.Address

def base32 : Bits.Code := ⟨5, "ABCDEFGHIJKLMNOPQRSTUVWXYZ234567".toList⟩

/-- The bytes of a text behind what is in the buffer, which has so many bits. A character brings five
more, and the first eight are written as soon as they are there. -/
def decodeFrom? (buffer : UInt32) (bits : Nat) : List Char → Option (List UInt8)
  | [] => if buffer = 0 then some [] else none
  | c :: cs =>
    match base32.digit? c with
    | none => none
    | some value =>
      let buffer := (buffer <<< 5) ||| UInt32.ofNat value
      let bits := bits + 5
      if 8 ≤ bits then
        let bits := bits - 8
        (decodeFrom? (buffer &&& ((1 <<< UInt32.ofNat bits) - 1)) bits cs).map
          ((buffer >>> UInt32.ofNat bits).toUInt8 :: ·)
      else decodeFrom? buffer bits cs

/-- The bytes of a base32 text whose spare bits are all zero. -/
def decodeBase32? (cs : List Char) : Option (List UInt8) := decodeFrom? 0 0 cs

/-- One step of division by `x ^ 16 + x ^ 12 + x ^ 5 + 1`, the remainder held without its top
coefficient. -/
def shiftRemainder (r : UInt16) : UInt16 :=
  if r &&& 0x8000 != 0 then (r <<< 1) ^^^ 0x1021 else r <<< 1

/-- The remainder after one more byte. -/
def remainderByte (r : UInt16) (b : UInt8) : UInt16 :=
  Nat.repeat shiftRemainder 8 (r ^^^ (b.toUInt16 <<< 8))

/-- The checksum: the remainder of the message times `x ^ 16`, the highest bit of the first byte
being the highest coefficient. -/
def checksum (s : List UInt8) : UInt16 := s.foldl remainderByte 0

/-- The first byte of an account's address. -/
def accountVersion : UInt8 := 0x30

/-- The low byte first. -/
def lowHigh (w : UInt16) : List UInt8 := [w.toUInt8, (w >>> 8).toUInt8]

def encode (key : List UInt8) : List Char :=
  let body := accountVersion :: key
  base32.encode (body ++ lowHigh (checksum body))

/-- The bytes are a version, a key and their checksum. -/
def isEnvelope (bytes : List UInt8) : Bool :=
  match bytes with
  | [] => false
  | version :: rest =>
    let key := rest.take 32
    rest.length == 34 && version == accountVersion
      && rest.drop 32 == lowHigh (checksum (version :: key))

def isAccount (address : String) : Bool :=
  let cs := address.toList
  cs.length == 56 &&
    match decodeBase32? cs with
    | none => false
    | some bytes => isEnvelope bytes

end Turnstile.Address
