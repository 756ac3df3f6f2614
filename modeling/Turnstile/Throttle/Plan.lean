import Turnstile.Http.Request
import Turnstile.Route.Pattern
import Turnstile.Throttle.Counter

/-!
Which counters a request is charged on. Every request is charged on the default bucket; routes opt
into other buckets, override their quotas, or are left out of them.
-/

namespace Turnstile

structure Bucket where
  name : String
  quota : Quota
  deriving DecidableEq, Repr

namespace Bucket

/-- The name of the bucket that every request is charged on. -/
def defaultName : String := "default"

def isDefault (b : Bucket) : Bool := b.name == defaultName

/-- What is put behind the names of header fields about the bucket. -/
def suffix (b : Bucket) : String := if b.isDefault then "" else "-" ++ b.name

end Bucket

/-- A route's use of a bucket, with the parts of its quota that differ. -/
structure LimitRule where
  name : String
  limit : Option Nat := none
  window : Option Nat := none
  block : Option Nat := none
  deriving DecidableEq, Repr

/-- The rule has a limit or a window of its own. -/
def LimitRule.isOwnWindow (r : LimitRule) : Bool := r.limit.isSome || r.window.isSome

def LimitRule.override (r : LimitRule) (q : Quota) : Quota where
  limit := r.limit.getD q.limit
  window := r.window.getD q.window
  block := r.block.or q.block

/-- Rules for the requests of a method, or of any, whose paths match a pattern. -/
structure RouteLimits where
  method : Option Method
  source : String
  rules : List LimitRule := []
  skipped : List String := []
  deriving DecidableEq, Repr

namespace RouteLimits

def covers (r : RouteLimits) (q : Request) : Bool :=
  r.method.all (· == q.method) && (Pattern.ofText r.source).isMatch q.path

def ruleFor? (r : RouteLimits) (name : String) : Option LimitRule :=
  r.rules.find? fun rule => rule.name == name

def skips (r : RouteLimits) (name : String) : Bool := r.skipped.contains name

end RouteLimits

/-- A bucket as it applies to one request, and the key of its counter. -/
structure Charge where
  bucket : Bucket
  key : String
  deriving DecidableEq, Repr

/-- The buckets, the default one first, and the rules of routes, of which the first that covers a
request counts. -/
structure ThrottlePlan where
  default : Bucket
  more : List Bucket := []
  routes : List RouteLimits := []
  deriving DecidableEq, Repr

namespace ThrottlePlan

def buckets (p : ThrottlePlan) : List Bucket := p.default :: p.more

/-- A bucket's charge under a rule. A rule with a limit or window of its own has a counter of its
own for the route. -/
def chargeUnder (b : Bucket) (source : String) (rule : LimitRule) (caller : String) : Charge where
  bucket := { b with quota := rule.override b.quota }
  key := if rule.isOwnWindow then b.name ++ ":" ++ source ++ ":" ++ caller
    else b.name ++ ":" ++ caller

/-- A bucket's charge without a rule. -/
def chargePlain (b : Bucket) (caller : String) : Charge := ⟨b, b.name ++ ":" ++ caller⟩

/-- The charge on a registered bucket, if it applies. -/
def registered? (route : Option RouteLimits) (caller : String) (b : Bucket) : Option Charge :=
  match route with
  | none => if b.isDefault then some (chargePlain b caller) else none
  | some r =>
    if r.skips b.name then none
    else
      match r.ruleFor? b.name with
      | some rule => some (chargeUnder b r.source rule caller)
      | none => if b.isDefault then some (chargePlain b caller) else none

/-- The charge on a bucket that only the rule knows, which needs a limit and a window for that. -/
def standalone? (p : ThrottlePlan) (r : RouteLimits) (caller : String) (rule : LimitRule) :
    Option Charge :=
  if p.buckets.any (·.name == rule.name) || r.skips rule.name then none
  else
    match rule.limit, rule.window with
    | some limit, some window =>
      some (chargeUnder ⟨rule.name, ⟨limit, window, none⟩⟩ r.source rule caller)
    | _, _ => none

/-- The charges of a request in their order: registered buckets, then those of rules alone. -/
def charges (p : ThrottlePlan) (q : Request) (caller : String) : List Charge :=
  let route := p.routes.find? (·.covers q)
  p.buckets.filterMap (registered? route caller)
    ++ match route with
      | some r => r.rules.filterMap (p.standalone? r caller)
      | none => []

end ThrottlePlan

end Turnstile
