import Turnstile.Cache.Captured
import Turnstile.Cache.Service
import Turnstile.Gateway.Exchange

/-!
The stage that answers repeated requests from a cache. Answers are kept for each user and each
target by itself; the order of a query does not matter as long as equal names keep theirs.
-/

namespace Turnstile

namespace ResponseCache

def hasInfix (word : List Char) : List Char → Bool
  | [] => word.isEmpty
  | c :: s => word.isPrefixOf (c :: s) || hasInfix word s

/-- A request whose answer may come from the cache and go there: one for reading that does not ask
for a fresh answer. -/
def isCacheable (r : Head) : Bool :=
  r.method == .get
    && !((r.headers.getAll "cache-control").any fun v =>
      hasInfix "no-cache".toList (Ascii.lower v).toList)
    && r.headers.get? "x-cache-bypass" != some "true"

def anonymous : String := "anonymous"

def user (r : Head) : String := ((r.headers.get? "user-id").filter (!·.isEmpty)).getD anonymous

/-- The pairs of a query, sorted by name; equal names keep their order. -/
def sortedPairs (r : Head) : List (String × String) :=
  r.queryPairs.mergeSort fun p q => p.1 ≤ q.1

def key (r : Head) : String :=
  let base := user r ++ ":" ++ r.path
  let pairs := sortedPairs r
  if pairs.isEmpty then base else base ++ "?" ++ String.ofList (Form.write pairs)

/-- How long answers are kept: five minutes. -/
def ttl : Nat := 300 * Clock.second

def marker : String := "X-Cache"

/-- An answer from the cache. -/
def hit (c : CapturedResponse) : Response := c.replay.addHeader marker "HIT"

end ResponseCache

open ResponseCache in
/-- Answers cacheable requests from the cache and keeps their successful answers there, paths that
match one of the excluded patterns apart. A cache that fails does not show. -/
def Stage.cacheResponses {σ : Type} (cache : Cache σ) (excluded : List Pattern) : Stage σ :=
  fun next x =>
    if !isCacheable x.request.toHead || excluded.any (·.isMatch x.request.path) then next x
    else do
      let key := ResponseCache.key x.request.toHead
      match ← cache.peek CapturedResponse.parse? key with
      | .ok (some c) => return hit c
      | _ =>
        let r ← next x
        if !r.isSuccess then return r
        match ← cache.set key (some (CapturedResponse.capture r).toJson) (some ttl) with
        | .ok _ => return r.addHeader marker "MISS"
        | .error _ => return r

end Turnstile
