import Turnstile.Gateway.Exchange
import Turnstile.Throttle.Plan

namespace Turnstile

namespace Throttle

/-- The answer to a request that a bucket refuses, with the seconds until it may come again. -/
def refusal (b : Bucket) (h : Hit) : Response :=
  (Response.ofJson .tooManyRequests <| .object
    [("message", .string "ThrottlerException: Too Many Requests"), ("statusCode", .ofNat 429)])
    |>.addHeader ("Retry-After" ++ b.suffix) (toString (Clock.wholeSeconds h.timeToUnblock))

/-- What the answer to an admitted request says of a bucket. -/
def fields (b : Bucket) (h : Hit) : List (String × String) :=
  [("X-RateLimit-Limit" ++ b.suffix, toString b.quota.limit),
    ("X-RateLimit-Remaining" ++ b.suffix, toString (b.quota.limit - h.total)),
    ("X-RateLimit-Reset" ++ b.suffix, toString (Clock.wholeSeconds h.timeToExpire))]

inductive Verdict where
  | admitted (fields : List (String × String))
  | refused (response : Response)

/-- Charges a request on one counter after the other, up to the first that refuses it. A counter
that cannot be reached refuses nothing and says nothing. -/
def charge {σ : Type} (store : CounterStore σ) : List Charge → Run σ Verdict
  | [] => pure (.admitted [])
  | c :: cs => do
    match ← store.hit c.key c.bucket.quota with
    | .error _ => charge store cs
    | .ok h =>
      if h.isBlocked then pure (.refused (refusal c.bucket h))
      else
        match ← charge store cs with
        | .admitted more => pure (.admitted (fields c.bucket h ++ more))
        | .refused r => pure (.refused r)

end Throttle

/-- Charges each request on its counters, administrators' requests on none. -/
def Stage.throttle {σ : Type} (plan : ThrottlePlan) (store : CounterStore σ)
    (check : TokenCheck σ) : Stage σ := fun next x => do
  let (claims, x) ← x.claims check
  if Caller.isExempt x.principal claims then next x
  else
    let caller := Caller.resolve x.principal claims x.request
    match ← Throttle.charge store (plan.charges x.request caller.key) with
    | .refused r => return r
    | .admitted fields =>
      let r ← next { x with notes := x.notes.insert .caller caller }
      return r.addHeaders fields

end Turnstile
