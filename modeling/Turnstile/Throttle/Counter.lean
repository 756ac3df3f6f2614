import Turnstile.Keyed
import Turnstile.Run

/-!
Counters in fixed windows. A window starts with the first hit that finds no counter or a lapsed
one. The hit that exceeds the limit blocks the counter, for a given time or until its window ends;
until then hits change nothing, and the first one after it starts a new window.
-/

namespace Turnstile

/-- How many hits a window admits, how long it lasts, and how long an excess blocks the counter;
without a time for that, until the window ends. -/
structure Quota where
  limit : Nat
  window : Nat
  block : Option Nat
  deriving DecidableEq, Repr

/-- The hits of a window, its end, and the end of a block. -/
structure Counter where
  hits : Nat
  expires : Nat
  blockedUntil : Option Nat
  deriving DecidableEq, Repr

structure Hit where
  total : Nat
  timeToExpire : Nat
  isBlocked : Bool
  timeToUnblock : Nat
  deriving DecidableEq, Repr

structure Counters where
  table : List (String × Counter)
  deriving DecidableEq, Repr

namespace Counter

/-- A counter stops counting here. -/
def maxHits : Nat := Nat.pow 2 32 - 1

def isLapsed (c : Counter) (now : Nat) : Bool :=
  match c.blockedUntil with
  | some u => u ≤ now
  | none => c.expires ≤ now

def fresh (now : Nat) (q : Quota) : Except ClockOverflow Counter := do
  let e ← Clock.after now q.window
  return ⟨0, e, none⟩

/-- The window that a hit falls in: the one that is there, unless it has lapsed. -/
def current (now : Nat) (q : Quota) : Option Counter → Except ClockOverflow Counter
  | some c => if c.isLapsed now then fresh now q else .ok c
  | none => fresh now q

def found (c : Counter) (now : Nat) : Hit where
  total := c.hits
  timeToExpire := c.expires - now
  isBlocked := c.blockedUntil.isSome
  timeToUnblock := c.blockedUntil.getD now - now

/-- When a block that starts now ends. -/
def blockEnd (c : Counter) (now : Nat) (q : Quota) : Except ClockOverflow Nat :=
  match q.block with
  | some d => Clock.after now d
  | none => .ok c.expires

/-- One more hit in a window, unless it is blocked. If the end of a block lies beyond the clock, the
hit is counted and the counter is not blocked. -/
def count (c : Counter) (now : Nat) (q : Quota) : Except ClockOverflow Hit × Counter :=
  match c.blockedUntil with
  | some _ => (.ok (c.found now), c)
  | none =>
    let c := { c with hits := min (c.hits + 1) maxHits }
    if c.hits ≤ q.limit then (.ok (c.found now), c)
    else
      match c.blockEnd now q with
      | .ok u =>
        let c := { c with blockedUntil := some u }
        (.ok (c.found now), c)
      | .error e => (.error e, c)

end Counter

namespace Counters

def empty : Counters := ⟨[]⟩

def get? (cs : Counters) (key : String) : Option Counter := Keyed.get? key cs.table

def size (cs : Counters) : Nat := cs.table.length

def isEmpty (cs : Counters) : Bool := cs.table.isEmpty

/-- A hit on a key. If the end of a new window lies beyond the clock, nothing changes. -/
def hit (now : Nat) (key : String) (q : Quota) : Run Counters Hit := fun cs =>
  match Counter.current now q (cs.get? key) with
  | .error e => (.error e, cs)
  | .ok c =>
    let (r, c) := c.count now q
    (r, ⟨Keyed.insert key c cs.table⟩)

def cleanup (now : Nat) (cs : Counters) : Counters :=
  ⟨cs.table.filter fun m => !m.2.isLapsed now⟩

end Counters

structure CounterFault where
  reason : String
  deriving DecidableEq, Repr

/-- Where hits are counted: a state and what a hit does to it. A store may fail. -/
structure CounterStore (σ : Type) where
  hit : String → Quota → Run σ (Except CounterFault Hit)

namespace CounterStore

/-- Counters in memory, as a part of a state with a clock. -/
def memory {σ : Type} (clock : σ → Nat) (part : Part σ Counters) : CounterStore σ where
  hit key q := do
    let s ← Run.state
    let r ← part.run (Counters.hit (clock s) key q)
    return .ok r

/-- A store that fails for some keys and does not count them. -/
def failingFor {σ : Type} (store : CounterStore σ) (fails : String → Bool) (fault : CounterFault) :
    CounterStore σ where
  hit key q := if fails key then pure (.error fault) else store.hit key q

end CounterStore

end Turnstile
