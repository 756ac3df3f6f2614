import Turnstile.Text.Ascii
import Turnstile.Text.Visible

namespace Turnstile.Text

def hexChars (n : Nat) : List Char := Nat.toDigits 16 n

/-- A character inside quotes. What does not show is written by its code point. -/
def quotedChar (c : Char) : List Char :=
  if c = '"' then ['\\', '"']
  else if c = '\\' then ['\\', '\\']
  else if c = '\n' then ['\\', 'n']
  else if c = '\r' then ['\\', 'r']
  else if c = '\t' then ['\\', 't']
  else if c.toNat = 0 then ['\\', '0']
  else if isVisible c then [c]
  else '\\' :: 'u' :: '{' :: (hexChars c.toNat ++ ['}'])

def quoted (t : String) : String :=
  String.ofList ('"' :: (t.toList.flatMap quotedChar ++ ['"']))

end Turnstile.Text
