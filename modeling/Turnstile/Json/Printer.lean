import Turnstile.Binary64.Decimal
import Turnstile.Json.Value
import Turnstile.Text.Ascii

/-!
JSON texts of values, without space between the parts. A string escapes the quote, the backslash
and the control characters below U+0020; a double is written with the fewest digits that read back.
-/

namespace Turnstile.Json

def natChars (n : Nat) : List Char := Nat.toDigits 10 n

def intChars (i : Int) : List Char :=
  if i < 0 then '-' :: natChars i.natAbs else natChars i.natAbs

/-- A decimal with a point or an exponent. The point stands in its place for magnitudes from
`10 ^ -5` up to below `10 ^ 16`, with at least one digit behind it; otherwise the first digit is
followed by the point, if there are more digits, and the exponent with its sign. -/
def decimalChars (d : Decimal) : List Char :=
  let ds := natChars d.coefficient
  let top : Int := ds.length + d.exponent
  if 0 ≤ d.exponent ∧ top ≤ 16 then
    ds ++ List.replicate d.exponent.toNat '0' ++ ['.', '0']
  else if 0 < top ∧ top ≤ 16 then
    ds.take top.toNat ++ '.' :: ds.drop top.toNat
  else if -5 < top ∧ top ≤ 0 then
    '0' :: '.' :: (List.replicate (-top).toNat '0' ++ ds)
  else
    let e := if top < 1 then 'e' :: intChars (top - 1) else 'e' :: '+' :: intChars (top - 1)
    match ds with
    | [c] => c :: e
    | c :: rest => c :: '.' :: (rest ++ e)
    | [] => e

def doubleChars (x : Binary64) : List Char :=
  let ds := decimalChars x.shortest
  if x.negative then '-' :: ds else ds

def Number.chars : Number → List Char
  | .integer i => intChars i
  | .double x => doubleChars x

def escapeChar (c : Char) : List Char :=
  if c = '"' then ['\\', '"']
  else if c = '\\' then ['\\', '\\']
  else if c = '\n' then ['\\', 'n']
  else if c = '\r' then ['\\', 'r']
  else if c = '\t' then ['\\', 't']
  else if c.toNat = 0x08 then ['\\', 'b']
  else if c.toNat = 0x0C then ['\\', 'f']
  else if c.toNat < 0x20 then
    ['\\', 'u', '0', '0', Ascii.hexDigit (c.toNat / 16), Ascii.hexDigit (c.toNat % 16)]
  else [c]

def quote (cs : List Char) : List Char := '"' :: (cs.flatMap escapeChar ++ ['"'])

mutual

def Value.chars : Value → List Char
  | .null => "null".toList
  | .bool true => "true".toList
  | .bool false => "false".toList
  | .number n => n.chars
  | .string s => quote s.toList
  | .array [] => ['[', ']']
  | .array (v :: vs) => '[' :: (v.chars ++ moreItemChars vs)
  | .object [] => ['{', '}']
  | .object ((k, v) :: ms) => '{' :: (quote k.toList ++ ':' :: (v.chars ++ moreMemberChars ms))

/-- The items after the first one, and the closing bracket. -/
def moreItemChars : List Value → List Char
  | [] => [']']
  | v :: vs => ',' :: (v.chars ++ moreItemChars vs)

/-- The members after the first one, and the closing brace. -/
def moreMemberChars : List (String × Value) → List Char
  | [] => ['}']
  | (k, v) :: ms => ',' :: (quote k.toList ++ ':' :: (v.chars ++ moreMemberChars ms))

end

def Value.text (v : Value) : String := String.ofList v.chars

end Turnstile.Json
