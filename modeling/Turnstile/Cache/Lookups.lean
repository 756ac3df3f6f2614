import Turnstile.Json.Printer
import Turnstile.Keyed

namespace Turnstile

/-- The lookups of one key, in words of sixty-four bits that start again from zero. -/
structure LookupCount where
  hits : UInt64 := 0
  misses : UInt64 := 0
  deriving DecidableEq, Repr

namespace LookupCount

def record (c : LookupCount) (isHit : Bool) : LookupCount :=
  if isHit then { c with hits := c.hits + 1 } else { c with misses := c.misses + 1 }

/-- The hits in a hundred lookups, a quotient and a product of doubles; zero without lookups. -/
def hitRate (c : LookupCount) : Binary64 :=
  let total := c.hits + c.misses
  let rate := do
    let q ← (Binary64.ofNat false c.hits.toNat).div (Binary64.ofNat false total.toNat)
    q.mul (Binary64.ofNat false 100)
  if total = 0 then Binary64.zero false else rate.getD (Binary64.zero false)

def toJson (c : LookupCount) : Json.Value :=
  .object [("hits", .ofNat c.hits.toNat), ("misses", .ofNat c.misses.toNat),
    ("hitRate", .number (.double c.hitRate))]

end LookupCount

structure Lookups where
  table : List (String × LookupCount)
  deriving DecidableEq, Repr

namespace Lookups

def empty : Lookups := ⟨[]⟩

/-- The lookups of a key; none if it was never looked up. -/
def count (l : Lookups) (key : String) : LookupCount := (Keyed.get? key l.table).getD {}

def record (l : Lookups) (key : String) (isHit : Bool) : Lookups :=
  ⟨Keyed.insert key ((l.count key).record isHit) l.table⟩

def size (l : Lookups) : Nat := l.table.length

def toJson (l : Lookups) : Json.Value := .object (l.table.map fun m => (m.1, m.2.toJson))

end Lookups

end Turnstile
