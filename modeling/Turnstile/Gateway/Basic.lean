import Turnstile.Cache.Stage
import Turnstile.Gateway.Api
import Turnstile.Gateway.Cors
import Turnstile.Settings.Basic
import Turnstile.Throttle.Stage

/-!
The gateway: its stages in front of its routes. A request passes the cross-origin policy, is given
its principal, is charged on its counters, and may be answered from the cache before a route
answers it.
-/

namespace Turnstile

structure Gateway (σ : Type) where
  settings : Settings
  check : TokenCheck σ
  counters : CounterStore σ
  cache : Cache σ

namespace Gateway

def healthPattern : String := "/health"

def authPattern : String := "/auth/*"

def cachePattern : String := "/cache/*"

/-- Every request is charged on the default bucket except those for the health of the gateway;
those for signing in are charged on their own bucket as well. -/
def throttlePlan (r : RateLimits) : ThrottlePlan where
  default := r.defaultBucket
  more := [r.authBucket]
  routes :=
    [{ method := none, source := healthPattern, skipped := [Bucket.defaultName] },
      { method := none, source := authPattern, rules := [{ name := RateLimits.authName }] }]

/-- The paths whose answers are never kept. -/
def uncached : List Pattern := [healthPattern, cachePattern].map Pattern.ofText

variable {σ : Type}

def stages (g : Gateway σ) : List (Stage σ) :=
  [Stage.cors { origins := g.settings.origins },
    Stage.authenticate g.check,
    Stage.throttle (throttlePlan g.settings.rateLimits) g.counters g.check,
    Stage.cacheResponses g.cache uncached]

def answer (g : Gateway σ) (o : Occasion) (r : Request) : Run σ Response :=
  Stage.chain g.stages (Handler.route (Api.router g.cache o)) (Exchange.ofRequest r)

structure Memory where
  now : Nat
  counters : Counters
  entries : Entries
  lookups : Lookups
  deriving DecidableEq, Repr

namespace Memory

def empty : Memory := ⟨0, .empty, .empty, .empty⟩

def countersPart : Part Memory Counters where
  get m := m.counters
  set cs m := { m with counters := cs }

def entriesPart : Part Memory Entries where
  get m := m.entries
  set es m := { m with entries := es }

def lookupsPart : Part Memory Lookups where
  get m := m.lookups
  set ls m := { m with lookups := ls }

def advance (d : Nat) (m : Memory) : Memory := { m with now := m.now + d }

/-- Without lapsed counters and expired entries. -/
def cleanup (m : Memory) : Memory :=
  { m with counters := m.counters.cleanup m.now, entries := m.entries.cleanup m.now }

def counterStore : CounterStore Memory := .memory Memory.now countersPart

def entryStore : EntryStore Memory := .memory Memory.now entriesPart

def cache (ttl : Nat) : Cache Memory where
  store := entryStore
  defaultTtl := ttl
  lookups := lookupsPart

end Memory

/-- The gateway of given settings that keeps everything in memory. -/
def inMemory (s : Settings) (v : Token.Verifier) : Gateway Memory where
  settings := s
  check := TokenCheck.ofVerifier v
  counters := Memory.counterStore
  cache := Memory.cache s.cacheTtl

end Gateway

end Turnstile
