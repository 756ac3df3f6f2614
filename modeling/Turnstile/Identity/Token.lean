import Turnstile.Bits
import Turnstile.Http.Headers
import Turnstile.Identity.Claims
import Turnstile.Identity.Digest
import Turnstile.Text.Utf8

/-!
Bearer tokens: three base64 parts joined by points, the last one a keyed digest of the text of the
other two. The checks come in a fixed order: the parts, the header, its algorithm, the signature,
the claims, their expiry, their audience.
-/

namespace Turnstile

inductive TokenError where
  | notConfigured
  | invalidToken
  | invalidAlgorithm
  | invalidSignature
  | expired
  | invalidAudience
  /-- A part is no base64. -/
  | base64
  /-- A part is no JSON of the right form. -/
  | json
  deriving DecidableEq, Repr

namespace TokenError

def message? : TokenError → Option String
  | .notConfigured => some "token verification is not configured"
  | .invalidToken => some "token rejected: InvalidToken"
  | .invalidAlgorithm => some "token rejected: InvalidAlgorithm"
  | .invalidSignature => some "token rejected: InvalidSignature"
  | .expired => some "token rejected: ExpiredSignature"
  | .invalidAudience => some "token rejected: InvalidAudience"
  | .base64 => none
  | .json => none

end TokenError

namespace Token

/-- URL-safe base64 without padding. -/
def base64 : Bits.Code :=
  ⟨6, "ABCDEFGHIJKLMNOPQRSTUVWXYZabcdefghijklmnopqrstuvwxyz0123456789-_".toList⟩

/-- The bytes of a base64 text. The bits beyond the last byte must be zero and fewer than one
character's. -/
def decodePart? (cs : List Char) : Option (List UInt8) :=
  match base64.bits? cs with
  | none => none
  | some bits =>
    let (bytes, left) := Bits.toBytes bits
    if left.length < 6 ∧ left.all (!·) then some bytes else none

/-- The text before the last point and the text behind it. -/
def splitLast? (cs : List Char) : Option (List Char × List Char) :=
  if cs.contains '.' then
    let behind := (cs.reverse.takeWhile (· != '.')).reverse
    some (cs.take (cs.length - behind.length - 1), behind)
  else none

def algorithms : List String :=
  ["HS256", "HS384", "HS512", "ES256", "ES384", "RS256", "RS384", "RS512", "PS256", "PS384",
    "PS512", "EdDSA"]

/-- The one algorithm that is accepted. -/
def ownAlgorithm : String := "HS256"

def textList? (t : Json.Tree) : Option (List String) :=
  t.items? >>= fun ts => ts.mapM Json.Tree.string?

/-- The names that a key in a header may give as its algorithm. -/
def keyAlgorithms : List String := algorithms ++ ["RSA1_5", "RSA-OAEP", "RSA-OAEP-256"]

def curves : List String := ["P-256", "P-384", "P-521", "Ed25519"]

/-- A name out of a list. -/
def nameIn? (names : List String) (t : Json.Tree) : Option String :=
  (Json.variant? t).filter names.contains

/-- The key of one of four families that a tree may write. -/
def isKeyOfFamily (t : Json.Tree) : Bool :=
  let has (names : List String) : Bool :=
    match t.fields? ("kty" :: names) with
    | some (_ :: fs) => fs.all fun f => (Json.required Json.Tree.string? f).isSome
    | _ => false
  let kind : Option String := do
    match ← t.fields? ["kty"] with
    | [k] => Json.required Json.variant? k
    | _ => none
  let curve : Option String := do
    match ← t.fields? ["crv"] with
    | [c] => Json.required (nameIn? curves) c
    | _ => none
  match kind with
  | some "EC" => curve.isSome && has ["x", "y"]
  | some "RSA" => has ["n", "e"]
  | some "OKP" => curve.isSome && has ["x"]
  | some "oct" => has ["k"]
  | _ => false

/-- The key that a header may carry. -/
def key? (t : Json.Tree) : Option Unit := do
  let _ ← t.members?
  match ← t.fields? ["use", "key_ops", "alg", "kid", "x5u", "x5c", "x5t", "x5t#S256"] with
  | [usage, operations, algorithm, kid, x5u, x5c, x5t, x5t256] =>
    let _ ← Json.optional Json.Tree.string? usage
    let _ ← Json.optional textList? operations
    let _ ← Json.optional (nameIn? keyAlgorithms) algorithm
    let _ ← Json.optional Json.Tree.string? kid
    let _ ← Json.optional Json.Tree.string? x5u
    let _ ← Json.optional textList? x5c
    let _ ← Json.optional Json.Tree.string? x5t
    let _ ← Json.optional Json.Tree.string? x5t256
    if isKeyOfFamily t then some () else none
  | _ => none

def headerNames : List String :=
  ["typ", "alg", "cty", "jku", "jwk", "kid", "x5u", "x5c", "x5t", "x5t#S256"]

/-- The algorithm that a header names. A header in an array has all fields. -/
def headerAlgorithm? (t : Json.Tree) : Option String := do
  let isWhole := match t with
    | .array ts => ts.length == headerNames.length
    | _ => true
  if !isWhole then none
  match ← t.fields? headerNames with
  | [typ, alg, cty, jku, jwk, kid, x5u, x5c, x5t, x5t256] =>
    let _ ← Json.optional Json.Tree.string? typ
    let alg ← Json.required (nameIn? algorithms) alg
    let _ ← Json.optional Json.Tree.string? cty
    let _ ← Json.optional Json.Tree.string? jku
    let _ ← Json.optional key? jwk
    let _ ← Json.optional Json.Tree.string? kid
    let _ ← Json.optional Json.Tree.string? x5u
    let _ ← Json.optional textList? x5c
    let _ ← Json.optional Json.Tree.string? x5t
    let _ ← Json.optional Json.Tree.string? x5t256
    return alg
  | _ => none

def namesAudience (t : Json.Tree) : Bool :=
  t.string?.isSome || (textList? t).isSome

/-- A tree that a claim of any kind may have: one that has a value. The claim "not before" must not
be an array or object with content. -/
def isReadable (name : String) : Option Json.Tree → Bool
  | none => true
  | some t =>
    match name, t with
    | "nbf", .array (_ :: _) => false
    | "nbf", .object (_ :: _) => false
    | _, t => (t.value? (Json.maxDepth - 1)).isSome

/-- The claims beside those of the holder, each at most once: whether there is an audience. -/
def audience? (t : Json.Tree) : Option Bool := do
  let _ ← t.members?
  match ← t.fields? ["exp", "nbf", "sub", "iss", "aud"] with
  | [_, nbf, _, iss, aud] =>
    if isReadable "nbf" nbf && isReadable "iss" iss && isReadable "aud" aud then
      some (aud.any namesAudience)
    else none
  | _ => none

/-- How long a token is still taken after its expiry, in seconds. -/
def leeway : Nat := 60

def signature (secret : List UInt8) (message : List Char) : List Char :=
  base64.encode (Digest.hmac secret (Utf8.encodeChars message))

/-- The claims of a token that is signed with the secret and not expired at a time in seconds. -/
def verify (secret : List UInt8) (now : Nat) (token : String) : Except TokenError Claims := do
  let some (message, sig) := splitLast? token.toList | .error .invalidToken
  let some (head, body) := splitLast? message | .error .invalidToken
  let some head := decodePart? head | .error .base64
  let some alg := Json.Tree.parse? head >>= headerAlgorithm? | .error .json
  if alg ≠ ownAlgorithm then .error .invalidAlgorithm
  if signature secret message ≠ sig then .error .invalidSignature
  let some body := decodePart? body | .error .base64
  let some tree := Json.Tree.parse? body | .error .json
  let some claims := Claims.ofTree? tree | .error .json
  let some hasAudience := audience? tree | .error .json
  if claims.exp + leeway < now then .error .expired
  if hasAudience then .error .invalidAudience
  return claims

/-- The header of the tokens that are signed here. -/
def ownHeader : Json.Value :=
  .object [("typ", .string "JWT"), ("alg", .string ownAlgorithm)]

/-- The part of a token that writes a value. -/
def encodePart (v : Json.Value) : List Char := base64.encode (Utf8.encodeChars v.chars)

def sign (secret : List UInt8) (claims : Claims) : String :=
  let message := encodePart ownHeader ++ '.' :: encodePart claims.toJson
  String.ofList (message ++ '.' :: signature secret message)

/-- How tokens are verified: the claims of a token, or why it is rejected. -/
abbrev Verifier := String → Except TokenError Claims

/-- Without a secret every token is rejected. -/
def disabled : Verifier := fun _ => .error .notConfigured

/-- The token of the first `Authorization` field, if that carries one. -/
def bearer? (h : Headers) : Option String := do
  let value ← h.get? "authorization"
  let scheme := "Bearer ".toList
  if scheme.isPrefixOf value.toList then
    let token := value.toList.drop scheme.length
    if token.isEmpty then none else some (String.ofList token)
  else none

end Token

end Turnstile
