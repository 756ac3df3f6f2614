import Turnstile.Text.Ascii

namespace Turnstile.Formats

def isHex (c : Char) : Bool :=
  c.isDigit || ('a' ≤ c && c ≤ 'f') || ('A' ≤ c && c ≤ 'F')

def uuidGroups : List Nat := [8, 4, 4, 4, 12]

/-- The text starts with groups of hexadecimal digits of these lengths, joined by hyphens, and
ends with the last one. -/
def isGrouped : List Nat → List Char → Bool
  | [], cs => cs.isEmpty
  | [n], cs => cs.length == n && cs.all isHex
  | n :: ns, cs =>
    (cs.take n).length == n && (cs.take n).all isHex &&
      match cs.drop n with
      | '-' :: rest => isGrouped ns rest
      | _ => false

def isUuid (t : String) : Bool := isGrouped uuidGroups t.toList

/-- Base58 leaves out the digit and the letters that look alike. -/
def isBase58 (c : Char) : Bool :=
  c.isAlphanum && c != '0' && c != 'I' && c != 'O' && c != 'l'

def isUrlSafe (c : Char) : Bool := c.isAlphanum || c == '_' || c == '-'

/-- A SHA-256 digest in hexadecimal, a content identifier of version 0, or a transaction
identifier of 43 URL-safe characters. -/
def isProofHash (t : String) : Bool :=
  let cs := t.toList
  (cs.length == 64 && cs.all isHex)
    || (match cs with
        | 'Q' :: 'm' :: rest => 44 ≤ rest.length && rest.all isBase58
        | _ => false)
    || (cs.length == 43 && cs.all isUrlSafe)

end Turnstile.Formats
