import Turnstile.Http.Request
import Turnstile.Identity.Claims
import Turnstile.Text.Blank

/-!
The identity that a request is counted under. Accounts are counted as such, so that a caller does
not escape a limit with another address; everyone else is counted by network address.
-/

namespace Turnstile

inductive Caller where
  /-- The principal of the request. -/
  | user (id : String)
  /-- The holder of a verified token. -/
  | holder (id : String)
  | address (text : String)
  | unknown
  deriving DecidableEq, Repr

namespace Caller

/-- The text that counters are kept under. Users and token holders share one form. -/
def key : Caller → String
  | .user id => "user:" ++ id
  | .holder id => "user:" ++ id
  | .address text => "ip:" ++ text
  | .unknown => "ip:unknown"

def isAuthenticated : Caller → Bool
  | .user _ => true
  | .holder _ => true
  | .address _ => false
  | .unknown => false

/-- The first entry of the first `X-Forwarded-For` field. -/
def forwardedFor? (h : Headers) : Option String := do
  let line ← (h.getAll "x-forwarded-for").head?
  Text.nonBlank? (String.ofList (line.toList.takeWhile (· != ',')))

/-- The address that a request comes from, as far as it is known. -/
def address? (r : Request) : Option String :=
  match forwardedFor? r.headers with
  | some a => some a
  | none =>
    match r.clientIps with
    | ip :: _ => some ip.text
    | [] => r.peer.map (·.ip.text)

/-- The caller of a request: the principal, the holder of the token, or an address. -/
def resolve (principal : Option Principal) (claims : Option Claims) (r : Request) : Caller :=
  match principal.bind Principal.identifier with
  | some id => .user id
  | none =>
    match claims.bind Claims.subject with
    | some id => .holder id
    | none =>
      match address? r with
      | some a => .address a
      | none => .unknown

/-- Administrators are not counted: the principal is one, or the token says so. -/
def isExempt (principal : Option Principal) (claims : Option Claims) : Bool :=
  principal.any Principal.isAdmin || claims.any Claims.isAdmin

end Caller

end Turnstile
