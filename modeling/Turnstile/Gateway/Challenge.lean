import Turnstile.Gateway.Occasion
import Turnstile.Json.Value

namespace Turnstile

/-- What a wallet is asked to sign, and until when, in milliseconds. -/
structure Challenge where
  address : String
  issued : Nat
  deriving DecidableEq, Repr

namespace Challenge

/-- Five minutes. -/
def lifetime : Nat := 300000

def expires (c : Challenge) : Nat := c.issued + lifetime

/-- The text that the wallet of an address signs at a time in milliseconds. -/
def message (address : String) (time : Int) : String :=
  "StellarEarn Authentication\n\n"
    ++ "Sign this message to authenticate with your Stellar wallet.\n\n"
    ++ "Address: " ++ address ++ "\n"
    ++ "Timestamp: " ++ toString time ++ "\n\n"
    ++ "This signature will not trigger any blockchain transaction or cost any fees."

def text (c : Challenge) : String := message c.address c.issued

def toJson (c : Challenge) : Json.Value :=
  .object [("challenge", .string c.text), ("expiresAt", .string (Calendar.stamp c.expires))]

end Challenge

end Turnstile
