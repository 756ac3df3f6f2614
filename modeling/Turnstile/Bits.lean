namespace Turnstile.Bits

/-- The lowest `width` bits of a number. -/
def ofNat : Nat → Nat → List Bool
  | 0, _ => []
  | width + 1, n => (n / Nat.pow 2 width % 2 == 1) :: ofNat width n

def toNat (bs : List Bool) : Nat := bs.foldl (fun n b => 2 * n + b.toNat) 0

def ofBytes (s : List UInt8) : List Bool := s.flatMap fun b => ofNat 8 b.toNat

/-- The whole bytes of a bit string, and the fewer than eight bits left over. -/
def toBytes : List Bool → List UInt8 × List Bool
  | a :: b :: c :: d :: e :: f :: g :: h :: rest =>
    let (bytes, left) := toBytes rest
    (UInt8.ofNat (toNat [a, b, c, d, e, f, g, h]) :: bytes, left)
  | bits => ([], bits)

/-- The bits in groups of `width`, the last one filled up with zeros. -/
def groups (width : Nat) (bs : List Bool) : List (List Bool) :=
  if width = 0 ∨ bs = [] then []
  else
    let g := bs.take width
    (g ++ List.replicate (width - g.length) false) :: groups width (bs.drop width)
termination_by bs.length
decreasing_by
  cases bs with
  | nil => simp_all
  | cons b bs => simp only [List.length_drop, List.length_cons]; omega

/-- A code that writes `width` bits with one character of an alphabet. -/
structure Code where
  width : Nat
  alphabet : List Char

namespace Code

def digit? (code : Code) (c : Char) : Option Nat := code.alphabet.idxOf? c

/-- The character of a group of bits. -/
def symbol (code : Code) (g : List Bool) : Char := code.alphabet.getD (toNat g) '='

def encode (code : Code) (s : List UInt8) : List Char :=
  (groups code.width (ofBytes s)).map code.symbol

/-- The bits that a text writes, if all its characters are in the alphabet. -/
def bits? (code : Code) (cs : List Char) : Option (List Bool) :=
  (cs.mapM code.digit?).map fun ds => ds.flatMap (ofNat code.width)

end Code

end Turnstile.Bits
