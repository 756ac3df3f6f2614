import Turnstile.Gateway.Exchange

namespace Turnstile

/-- The origins that are allowed, `*` for all, and header names beyond the usual ones. -/
structure CorsPolicy where
  origins : List String
  moreAllowed : List String := []
  moreExposed : List String := []
  deriving DecidableEq, Repr

namespace CorsPolicy

def anyOrigin : String := "*"

def methods : List String := ["GET", "POST", "PUT", "PATCH", "DELETE", "OPTIONS"]

def allowed (p : CorsPolicy) : List String :=
  ["Content-Type", "Authorization", "Cache-Control", "X-Cache-Bypass", "user-id"] ++ p.moreAllowed

def exposed (p : CorsPolicy) : List String :=
  ["X-Cache", "X-RateLimit-Limit", "X-RateLimit-Remaining", "X-RateLimit-Reset", "Retry-After"]
    ++ p.moreExposed

def joined (names : List String) : String := ", ".intercalate names

/-- How an origin is answered, if it is allowed. -/
def allowedOrigin? (p : CorsPolicy) (origin : String) : Option String :=
  if p.origins.contains anyOrigin then some anyOrigin
  else if p.origins.contains origin then some origin
  else none

/-- The fields of every answer to an allowed origin. A single origin may send credentials, and the
answer depends on it. -/
def originFields (origin : String) : List (String × String) :=
  ("Access-Control-Allow-Origin", origin) ::
    if origin = anyOrigin then []
    else [("Access-Control-Allow-Credentials", "true"), ("Vary", "Origin")]

/-- The answer to the question whether a request would be allowed. -/
def preflight (p : CorsPolicy) (origin : String) : Response :=
  (Response.ofStatus .noContent).addHeaders
    ([("Access-Control-Allow-Methods", joined methods),
      ("Access-Control-Allow-Headers", joined p.allowed),
      ("Access-Control-Max-Age", "3600")] ++ originFields origin)

def answerFields (p : CorsPolicy) (origin : String) : List (String × String) :=
  originFields origin ++ [("Access-Control-Expose-Headers", joined p.exposed)]

end CorsPolicy

/-- Answers preflight requests of allowed origins and marks the answers to their other requests. All
else passes as it is. -/
def Stage.cors {σ : Type} (p : CorsPolicy) : Stage σ := fun next x =>
  match x.request.headers.get? "origin" >>= p.allowedOrigin? with
  | none => next x
  | some origin =>
    if x.request.method = .options then pure (p.preflight origin)
    else do
      let r ← next x
      return r.addHeaders (p.answerFields origin)

end Turnstile
