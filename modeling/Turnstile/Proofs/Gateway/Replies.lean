import Turnstile.Proofs.Cache.Stage
import Turnstile.Proofs.Gateway.Endpoints

/-!
What stands behind the counters of a gateway: the cache in front of its routes. `reply` says at once
all that a request can meet there. No route takes a request whose answer would be kept, so nothing
ever comes into the cache.
-/

namespace Turnstile

namespace ResponseCache

variable {σ : Type} {excluded : List Pattern}

/-- What is answered when an entry was looked up, if there is nothing else to answer. -/
def repeatOr (r : Response) : Except CacheError (Option CapturedResponse) → Response
  | .ok (some c) => hit c
  | _ => r

theorem cacheResponses_of_not_eligible {x : Exchange} (h : isEligible excluded x = false)
    (cache : Cache σ) (next : Handler σ) :
    Stage.cacheResponses cache excluded next x = next x := by
  rw [Stage.cacheResponses, not_isEligible, h]
  rfl

/-- An answer that is no success is not kept. -/
theorem cacheResponses_of_failure {x : Exchange} (h : isEligible excluded x = true)
    (cache : Cache σ) {next : Handler σ} {r : Response} (answered : next x = pure r)
    (failure : r.isSuccess = false) :
    Stage.cacheResponses cache excluded next x = do
      let found ← cache.peek CapturedResponse.parse? (key x.request.toHead)
      return repeatOr r found := by
  rw [Stage.cacheResponses, not_isEligible, h]
  simp only [Bool.not_true, Bool.false_eq_true, if_false]
  congr 1
  funext found
  rcases found with e | _ | c
  · simp [answered, failure, repeatOr]
  · simp [answered, failure, repeatOr]
  · rfl

end ResponseCache

namespace Gateway

open ResponseCache (isEligible isEligible_eq repeatOr)

/-- The cache and the routes behind it. -/
def behind (s : Settings) (o : Occasion) : Handler Memory :=
  Stage.cacheResponses (Memory.cache s.cacheTtl) uncached
    (Handler.route (Api.router (Memory.cache s.cacheTtl) o))

theorem of?_of_isEligible {x : Exchange} (h : isEligible uncached x = true) :
    Endpoint.of? x.request.method x.request.path = none := by
  rw [isEligible_eq, Bool.and_eq_true, Bool.not_eq_true'] at h
  exact Endpoint.of?_of_cacheable h.1 h.2

variable (s : Settings) (o : Occasion)

/-- A request whose answer may be kept finds no route. -/
theorem behind_of_isEligible {x : Exchange} (h : isEligible uncached x = true) :
    behind s o x = do
      let found ← (Memory.cache s.cacheTtl).peek CapturedResponse.parse?
        (ResponseCache.key x.request.toHead)
      return repeatOr (Router.notFound x.request.method x.request.path) found := by
  apply ResponseCache.cacheResponses_of_failure h
  · rw [Endpoint.router_eq_table, Endpoint.route_table, of?_of_isEligible h]
  · rfl

theorem behind_of_not_isEligible {x : Exchange} (h : isEligible uncached x = false) :
    behind s o x =
      match Endpoint.of? x.request.method x.request.path with
      | some e => e.handler (Memory.cache s.cacheTtl) o { x with params := [] }
      | none => pure (Router.notFound x.request.method x.request.path) := by
  rw [behind, ResponseCache.cacheResponses_of_not_eligible h, Endpoint.router_eq_table]
  exact Endpoint.route_table _ x

/-- What stands behind the counters for a request: a lookup in the cache, when its answer may be
kept; a route, which serves the request or turns it away; or nothing. -/
inductive Reply (s : Settings) (o : Occasion) (x : Exchange) : Run Memory Response → Prop
  | sought (unrouted : Endpoint.of? x.request.method x.request.path = none) :
      Reply s o x do
        let found ← (Memory.cache s.cacheTtl).peek CapturedResponse.parse?
          (ResponseCache.key x.request.toHead)
        return repeatOr (Router.notFound x.request.method x.request.path) found
  | lost (unrouted : Endpoint.of? x.request.method x.request.path = none) :
      Reply s o x (pure (Router.notFound x.request.method x.request.path))
  | turnedAway {e : Endpoint} (taken : Endpoint.of? x.request.method x.request.path = some e)
      (shut : e.audience.admits x.principal = false) :
      Reply s o x (pure (Audience.turnedAway x.principal))
  | served {e : Endpoint} (taken : Endpoint.of? x.request.method x.request.path = some e)
      (admitted : e.audience.admits x.principal = true) :
      Reply s o x (e.service (Memory.cache s.cacheTtl) o { x with params := [] })

theorem reply (x : Exchange) : Reply s o x (behind s o x) := by
  cases eligible : isEligible uncached x with
  | true =>
    rw [behind_of_isEligible s o eligible]
    exact .sought (of?_of_isEligible eligible)
  | false =>
    rw [behind_of_not_isEligible s o eligible]
    cases taken : Endpoint.of? x.request.method x.request.path with
    | none => exact .lost taken
    | some e =>
      cases admitted : e.audience.admits x.principal with
      | true =>
        have handled : e.handler (Memory.cache s.cacheTtl) o { x with params := [] } =
            e.service (Memory.cache s.cacheTtl) o { x with params := [] } :=
          Audience.guard_of_admits (x := { x with params := [] }) admitted _
        simp only [handled]
        exact .served taken admitted
      | false =>
        have handled : e.handler (Memory.cache s.cacheTtl) o { x with params := [] } =
            pure (Audience.turnedAway x.principal) :=
          Audience.guard_of_not_admits (x := { x with params := [] }) admitted _
        simp only [handled]
        exact .turnedAway taken admitted

end Gateway

end Turnstile
