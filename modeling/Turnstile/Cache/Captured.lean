import Turnstile.Http.Response
import Turnstile.Json.Reader

/-!
Responses as they are kept in a cache: the status, the first content type, and the body, as text if
it is one and as a list of bytes otherwise.
-/

namespace Turnstile

inductive CapturedBody where
  | text (t : String)
  | binary (s : List UInt8)
  deriving DecidableEq, Repr

structure CapturedResponse where
  status : Nat
  contentType : Option String
  body : CapturedBody
  deriving DecidableEq, Repr

namespace CapturedBody

def ofBytes (s : List UInt8) : CapturedBody :=
  match Utf8.text? s with
  | some t => .text t
  | none => .binary s

def bytes : CapturedBody → List UInt8
  | .text t => Utf8.encode t
  | .binary s => s

def toJson : CapturedBody → Json.Value
  | .text t => .string t
  | .binary s => .array (s.map fun b => .ofNat b.toNat)

/-- A string, or an array of bytes. -/
def ofTree? : Json.Tree → Option CapturedBody
  | .string ps => (Json.piecesText? ps).map .text
  | .array ts =>
    (ts.mapM (Json.Tree.natBelow? 256)).map fun ns => .binary (ns.map UInt8.ofNat)
  | _ => none

end CapturedBody

namespace CapturedResponse

def capture (r : Response) : CapturedResponse :=
  ⟨r.status.code, r.headers.get? "content-type", CapturedBody.ofBytes r.body⟩

/-- The response that is given again. A status that the gateway does not have becomes 200. -/
def replay (c : CapturedResponse) : Response :=
  let r : Response := { status := (Status.ofCode? c.status).getD .ok, body := c.body.bytes }
  match c.contentType with
  | some t => r.addHeader "Content-Type" t
  | none => r

def toJson (c : CapturedResponse) : Json.Value :=
  .object
    (("status", .ofNat c.status) ::
      ((match c.contentType with
        | some t => [("contentType", .string t)]
        | none => [])
      ++ [("body", c.body.toJson)]))

def statusBound : Nat := Nat.pow 2 16

def fieldNames : List String := ["status", "contentType", "body"]

def ofTree? (t : Json.Tree) : Option CapturedResponse := do
  match ← t.fields? fieldNames with
  | [status, contentType, body] =>
    let status ← Json.required (Json.Tree.natBelow? statusBound) status
    let contentType ← Json.optional Json.Tree.string? contentType
    let body ← Json.required CapturedBody.ofTree? body
    return ⟨status, contentType, body⟩
  | _ => none

def parse? (s : List UInt8) : Option CapturedResponse := Json.Tree.parse? s >>= ofTree?

end CapturedResponse

end Turnstile
