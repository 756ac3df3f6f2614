namespace Turnstile.Ascii

/-- A text with the letters `A` to `Z` made small; all else stays. -/
def lower (t : String) : String := String.ofList (t.toList.map Char.toLower)

def sameWord (a b : String) : Bool :=
  a.toList.map Char.toLower == b.toList.map Char.toLower

/-- The control characters U+0000 to U+001F and U+007F. -/
def isControl (c : Char) : Bool := c.toNat < 0x20 || c.toNat == 0x7F

/-- The digit with value `n`, for `n` below 16, letters small. -/
def hexDigit (n : Nat) : Char :=
  if n < 10 then Char.ofNat (0x30 + n) else Char.ofNat (0x57 + n)

/-- The digit with value `n`, for `n` below 16, letters capital. -/
def hexDigitUpper (n : Nat) : Char :=
  if n < 10 then Char.ofNat (0x30 + n) else Char.ofNat (0x37 + n)

/-- The value of a hexadecimal digit in either case, given as a byte. -/
def hexValue? (b : UInt8) : Option Nat :=
  let n := b.toNat
  if 0x30 ≤ n && n ≤ 0x39 then some (n - 0x30)
  else if 0x41 ≤ n && n ≤ 0x46 then some (n - 0x37)
  else if 0x61 ≤ n && n ≤ 0x66 then some (n - 0x57)
  else none

/-- Decimal digits as values, for a character list that holds only digits. -/
def digits? (cs : List Char) : Option (List Nat) :=
  cs.mapM fun c => if c.isDigit then some (c.toNat - 0x30) else none

/-- The number that a list of decimal digits writes, the first digit the highest. -/
def ofDigits (ds : List Nat) : Nat := ds.foldl (fun n d => n * 10 + d) 0

/-- A decimal numeral with at least one digit and perhaps a leading plus, if its value is below the
bound. -/
def natBelow? (bound : Nat) (t : String) : Option Nat :=
  let cs := match t.toList with
    | '+' :: cs => cs
    | cs => cs
  if cs.isEmpty then none
  else
    match digits? cs with
    | none => none
    | some ds =>
      let n := ofDigits ds
      if n < bound then some n else none

end Turnstile.Ascii
