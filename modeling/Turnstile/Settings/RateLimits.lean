import Turnstile.Settings.Environment
import Turnstile.Throttle.Plan

namespace Turnstile

structure RateLimits where
  limit : Nat
  window : Nat
  authLimit : Nat
  authWindow : Nat
  deriving DecidableEq, Repr

namespace RateLimits

/-- A hundred requests a minute, ten of them for signing in. -/
def standard : RateLimits where
  limit := 100
  window := 60 * Clock.second
  authLimit := 10
  authWindow := 60 * Clock.second

def maxLimit : Nat := Nat.pow 2 32 - 1

def number (n : Nat) : Binary64 := Binary64.ofNat false n

/-- The limits that are set. One variable has two names, of which the first counts; the window for
signing in is that of the default bucket unless it is set. -/
def ofEnvironment (env : Environment) : RateLimits :=
  let limit := Environment.number
    ((env.value? "RATE_LIMIT_LIMIT").or (env.value? "RATE_LIMIT_MAX")) (number 100)
  let window := Environment.number (env.value? "RATE_LIMIT_TTL") (number 60)
  let authLimit := Environment.number (env.value? "RATE_LIMIT_AUTH_LIMIT") (number 10)
  let authWindow := Environment.number (env.value? "RATE_LIMIT_AUTH_TTL") window
  { limit := limit.toCount maxLimit
    window := window.toDuration
    authLimit := authLimit.toCount maxLimit
    authWindow := authWindow.toDuration }

def authName : String := "auth"

def defaultBucket (r : RateLimits) : Bucket := ⟨Bucket.defaultName, ⟨r.limit, r.window, none⟩⟩

def authBucket (r : RateLimits) : Bucket := ⟨authName, ⟨r.authLimit, r.authWindow, none⟩⟩

end RateLimits

end Turnstile
