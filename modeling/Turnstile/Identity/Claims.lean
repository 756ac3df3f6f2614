import Turnstile.Json.Printer
import Turnstile.Json.Reader

namespace Turnstile

/-- A caller's role. Names that this service does not know are one role. -/
inductive Role where
  | admin
  | verifier
  | user
  | unknown
  deriving DecidableEq, Repr

namespace Role

def name : Role → String
  | .admin => "admin"
  | .verifier => "verifier"
  | .user => "user"
  | .unknown => "unknown"

def ofName (n : String) : Role :=
  if n = "admin" then .admin
  else if n = "verifier" then .verifier
  else if n = "user" then .user
  else .unknown

@[simp] theorem ofName_name (r : Role) : ofName r.name = r := by cases r <;> decide

end Role

def firstNonEmpty (ts : List (Option String)) : Option String :=
  ts.findSome? fun t => t.filter (!·.isEmpty)

/-- What a token says of its holder, and until when, in seconds. -/
structure Claims where
  sub : Option String
  stellarAddress : Option String
  role : Option Role
  exp : Nat
  deriving DecidableEq, Repr

namespace Claims

/-- The identity that the token speaks for: the subject, then the account address. -/
def subject (c : Claims) : Option String := firstNonEmpty [c.sub, c.stellarAddress]

def isAdmin (c : Claims) : Bool := c.role == some .admin

def expiryBound : Nat := Nat.pow 2 64

def fieldNames : List String := ["sub", "stellarAddress", "role", "exp"]

/-- The claims that a tree stands for. The expiry must be there. -/
def ofTree? (t : Json.Tree) : Option Claims := do
  match ← t.fields? fieldNames with
  | [sub, address, role, exp] =>
    let sub ← Json.optional Json.Tree.string? sub
    let address ← Json.optional Json.Tree.string? address
    let role ← Json.optional Json.variant? role
    let exp ← Json.required (Json.Tree.natBelow? expiryBound) exp
    return ⟨sub, address, role.map Role.ofName, exp⟩
  | _ => none

def parse? (s : List UInt8) : Option Claims := Json.Tree.parse? s >>= ofTree?

def toJson (c : Claims) : Json.Value :=
  .object
    ((match c.sub with
      | some s => [("sub", .string s)]
      | none => [])
    ++ (match c.stellarAddress with
      | some s => [("stellarAddress", .string s)]
      | none => [])
    ++ (match c.role with
      | some r => [("role", .string r.name)]
      | none => [])
    ++ [("exp", .ofNat c.exp)])

end Claims

structure Principal where
  id : Option String
  stellarAddress : Option String
  subject : Option String
  role : Role
  deriving DecidableEq, Repr

namespace Principal

/-- The holder of a token; without a role it is a plain user. -/
def ofClaims (c : Claims) : Principal :=
  { id := c.sub, stellarAddress := c.stellarAddress, subject := c.sub,
    role := c.role.getD .user }

def identifier (p : Principal) : Option String :=
  firstNonEmpty [p.id, p.stellarAddress, p.subject]

def isAdmin (p : Principal) : Bool := p.role == .admin

end Principal

end Turnstile
