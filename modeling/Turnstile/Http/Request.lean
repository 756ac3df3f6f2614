import Turnstile.Http.Form
import Turnstile.Http.Headers
import Turnstile.Http.Method
import Turnstile.Http.Peer

namespace Turnstile

inductive Version where
  | http10
  | http11
  deriving DecidableEq, Repr

def Version.minor : Version → Nat
  | .http10 => 0
  | .http11 => 1

/-- The head of a request. The path ends before the first question mark, the query follows it. -/
structure Head where
  method : Method
  path : String
  query : Option String
  version : Version
  headers : Headers
  deriving DecidableEq, Repr

/-- A request. `clientIps` is the chain of callers that a trusted party in front has found, the
closest first. -/
structure Request extends Head where
  body : List UInt8
  peer : Option Peer := none
  clientIps : List IpAddress := []
  deriving DecidableEq, Repr

namespace Head

def queryPairs (r : Head) : List (String × String) :=
  match r.query with
  | some q => Form.parse (Utf8.encode q)
  | none => []

/-- The value of a query name, the last one if there are several. -/
def queryParam? (r : Head) (name : String) : Option String :=
  (r.queryPairs.reverse.find? fun p => p.1 == name).map (·.2)

/-- The connection stays open after this request: the first `Connection` field asks for it, or
there is none and the version is 1.1. -/
def isKeepAlive (r : Head) : Bool :=
  match r.headers.get? "connection" with
  | some v => Ascii.sameWord v "keep-alive"
  | none => r.version == .http11

/-- The numbers that a length can have. -/
def lengthBound : Nat := Nat.pow 2 64

/-- The length of the body that the first `Content-Length` field declares, if it is a number. -/
def contentLength? (r : Head) : Option Nat :=
  r.headers.get? "content-length" >>= Ascii.natBelow? lengthBound

end Head

end Turnstile
