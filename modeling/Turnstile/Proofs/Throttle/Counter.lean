import Turnstile.Proofs.Keyed
import Turnstile.Throttle.Counter

namespace Turnstile

/-- Both times of the quota can be added to the clock. -/
def Quota.Fits (q : Quota) (now : Nat) : Prop :=
  now + q.window < Clock.horizon ∧ ∀ d ∈ q.block, now + d < Clock.horizon

namespace Counter

/-- The instant from which a counter no longer counts: the end of its block, or of its window if it
is not blocked. -/
def lapse (c : Counter) : Nat := c.blockedUntil.getD c.expires

theorem isLapsed_iff {c : Counter} {now : Nat} : c.isLapsed now = true ↔ c.lapse ≤ now := by
  cases h : c.blockedUntil <;> simp [isLapsed, lapse, h]

/-- A window that starts now and ends on the clock. -/
def opened (now : Nat) (q : Quota) : Counter := ⟨0, now + q.window, none⟩

/-- A hit here starts a window: there is no counter, or a lapsed one. -/
def isOpening (now : Nat) (o : Option Counter) : Bool := o.all (·.isLapsed now)

theorem fresh_eq {now : Nat} {q : Quota} (fits : now + q.window < Clock.horizon) :
    fresh now q = .ok (opened now q) := by
  simp only [fresh, Clock.after_eq_ok fits]
  rfl

theorem current_of_opening {now : Nat} {q : Quota} {o : Option Counter}
    (opening : isOpening now o = true) (fits : now + q.window < Clock.horizon) :
    current now q o = .ok (opened now q) := by
  cases o with
  | none => exact fresh_eq fits
  | some c =>
    have lapsed : c.isLapsed now = true := opening
    simp [current, lapsed, fresh_eq fits]

/-- A window that would end beyond the clock does not start. -/
theorem current_of_late {now : Nat} {q : Quota} {o : Option Counter}
    (opening : isOpening now o = true) (late : ¬ now + q.window < Clock.horizon) :
    current now q o = .error .mk := by
  have fails : fresh now q = .error .mk := by
    simp only [fresh, Clock.after, if_neg late]
    rfl
  cases o with
  | none => exact fails
  | some c =>
    have lapsed : c.isLapsed now = true := opening
    simp [current, lapsed, fails]

theorem current_of_live {now : Nat} {q : Quota} {c : Counter} (live : c.isLapsed now = false) :
    current now q (some c) = .ok c := by
  simp [current, live]

theorem count_of_blocked {c : Counter} {now u : Nat} {q : Quota} (h : c.blockedUntil = some u) :
    c.count now q = (.ok (c.found now), c) := by
  simp [count, h]

theorem count_of_room {c : Counter} {now : Nat} {q : Quota} (free : c.blockedUntil = none)
    (room : c.hits < q.limit) (bounded : q.limit ≤ maxHits) :
    c.count now q =
      (.ok ({ c with hits := c.hits + 1 }.found now), { c with hits := c.hits + 1 }) := by
  have capped : min (c.hits + 1) maxHits = c.hits + 1 := by omega
  simp only [count, free, capped, if_pos (show c.hits + 1 ≤ q.limit by omega)]

/-- The hit that exceeds the limit is counted and blocks the counter. -/
theorem count_of_full {c : Counter} {now u : Nat} {q : Quota} (free : c.blockedUntil = none)
    (full : q.limit ≤ c.hits) (bounded : c.hits < maxHits) (ends : c.blockEnd now q = .ok u) :
    c.count now q =
      (.ok ({ c with hits := c.hits + 1, blockedUntil := some u }.found now),
        { c with hits := c.hits + 1, blockedUntil := some u }) := by
  have capped : min (c.hits + 1) maxHits = c.hits + 1 := by omega
  have same : blockEnd { c with hits := c.hits + 1 } now q = .ok u := ends
  simp only [free] at same
  simp only [count, free, capped, if_neg (show ¬ c.hits + 1 ≤ q.limit by omega), same]

theorem current_ok {now : Nat} {q : Quota} (fits : now + q.window < Clock.horizon)
    (o : Option Counter) : ∃ c, current now q o = .ok c := by
  cases opening : isOpening now o with
  | true => exact ⟨_, current_of_opening opening fits⟩
  | false =>
    cases o with
    | none => cases opening
    | some c => exact ⟨c, current_of_live opening⟩

/-- The end of the clock comes before a block only if the quota blocks for a time beyond it. -/
theorem blockEnd_ok {now : Nat} {q : Quota} (fits : ∀ d ∈ q.block, now + d < Clock.horizon)
    (c : Counter) : ∃ u, c.blockEnd now q = .ok u := by
  cases h : q.block with
  | none => exact ⟨c.expires, by simp [blockEnd, h]⟩
  | some d => exact ⟨now + d, by simp [blockEnd, h, Clock.after_eq_ok (fits d h)]⟩

theorem count_ok {now : Nat} {q : Quota} (fits : q.Fits now) (c : Counter) :
    ∃ h, (c.count now q).1 = .ok h := by
  simp only [count]
  split
  · exact ⟨_, rfl⟩
  · split
    · exact ⟨_, rfl⟩
    · obtain ⟨u, ended⟩ := blockEnd_ok fits.2 { c with hits := min (c.hits + 1) maxHits }
      rw [ended]
      exact ⟨_, rfl⟩

/-- A hit tells what it leaves behind. -/
theorem found_of_count {c c' : Counter} {now : Nat} {q : Quota} {h : Hit}
    (counted : c.count now q = (.ok h, c')) : h = c'.found now := by
  rw [count] at counted
  split at counted
  · cases counted
    rfl
  · simp only at counted
    split at counted
    · cases counted
      rfl
    · split at counted <;> cases counted
      rfl

/-- A quota of no hits blocks its counter at once. -/
theorem count_of_no_limit {now : Nat} {q : Quota} (nothing : q.limit = 0)
    (unblocked : q.block = none) (c : Counter) :
    ∃ h after, c.count now q = (.ok h, after) ∧ h.isBlocked = true := by
  have ends (c : Counter) : c.blockEnd now q = .ok c.expires := by simp [blockEnd, unblocked]
  cases block : c.blockedUntil with
  | some u => exact ⟨_, _, count_of_blocked block, by simp [found, block]⟩
  | none =>
    have exceeded : ¬ min (c.hits + 1) maxHits ≤ q.limit := by
      have some_room : 0 < maxHits := by decide +kernel
      omega
    simp only [count, block, if_neg exceeded, ends]
    exact ⟨_, _, rfl, rfl⟩

end Counter

namespace Counters

/-- Each key stands once and in order, as it does in every table that hits build up. -/
def Ordered (cs : Counters) : Prop := Keyed.Ordered cs.table

theorem ordered_empty : Ordered empty := Keyed.ordered_nil

theorem hit_of_current {now : Nat} {key : String} {q : Quota} {cs : Counters} {c : Counter}
    (h : Counter.current now q (cs.get? key) = .ok c) :
    hit now key q cs = ((c.count now q).1, ⟨Keyed.insert key (c.count now q).2 cs.table⟩) := by
  simp only [hit, h]

/-- A hit that would start a window beyond the clock comes to nothing. -/
theorem hit_of_late {now : Nat} {key : String} {q : Quota} {cs : Counters}
    (opening : Counter.isOpening now (cs.get? key) = true)
    (late : ¬ now + q.window < Clock.horizon) : hit now key q cs = (.error .mk, cs) := by
  simp only [hit, Counter.current_of_late opening late]

/-- The hit that starts a window that admits any is let through. -/
theorem hit_of_opening {now : Nat} {key : String} {q : Quota} {cs : Counters}
    (opening : Counter.isOpening now (cs.get? key) = true)
    (fits : now + q.window < Clock.horizon) (some_admitted : q.limit ≠ 0) :
    ∃ h after, hit now key q cs = (.ok h, after) ∧ h.isBlocked = false := by
  have room : min (0 + 1) Counter.maxHits ≤ q.limit := by omega
  rw [hit_of_current (Counter.current_of_opening opening fits)]
  simp only [Counter.count, Counter.opened, room, if_true]
  exact ⟨_, _, rfl, rfl⟩

/-- Where no hits are admitted, a hit is refused as soon as it has a window. -/
theorem hit_of_no_limit {now : Nat} {q : Quota} (nothing : q.limit = 0) (unblocked : q.block = none)
    (fits : now + q.window < Clock.horizon) (key : String) (cs : Counters) :
    ∃ h after, hit now key q cs = (.ok h, after) ∧ h.isBlocked = true := by
  obtain ⟨c, current⟩ := Counter.current_ok fits (cs.get? key)
  obtain ⟨h, after, counted, blocked⟩ := Counter.count_of_no_limit nothing unblocked c
  rw [hit_of_current current, counted]
  exact ⟨h, _, rfl, blocked⟩

/-- A hit has an outcome if its quota fits the clock. -/
theorem hit_ok {now : Nat} {q : Quota} (fits : q.Fits now) (key : String) (cs : Counters) :
    ∃ h, (hit now key q cs).1 = .ok h := by
  obtain ⟨c, current⟩ := Counter.current_ok fits.1 (cs.get? key)
  rw [hit_of_current current]
  exact Counter.count_ok fits c

theorem get?_hit_of_ne {now : Nat} {key k : String} {q : Quota} {cs : Counters} (h : key ≠ k) :
    (hit now key q cs).2.get? k = cs.get? k := by
  simp only [hit, get?]
  split
  · rfl
  · rw [Keyed.get?_insert, if_neg h]

theorem get?_hit_self {now : Nat} {key : String} {q : Quota} {cs : Counters} {c : Counter}
    (h : Counter.current now q (cs.get? key) = .ok c) :
    (hit now key q cs).2.get? key = some (c.count now q).2 := by
  rw [hit_of_current h]
  exact (Keyed.get?_insert _ _ _ _).trans (if_pos rfl)

/-- A hit tells of the counter that it leaves. -/
theorem found_of_hit {now : Nat} {key : String} {q : Quota} {cs after : Counters} {h : Hit}
    (struck : hit now key q cs = (.ok h, after)) :
    ∃ c, after.get? key = some c ∧ h = c.found now := by
  cases current : Counter.current now q (cs.get? key) with
  | error e => simp [hit, current] at struck
  | ok d =>
    have found := get?_hit_self current
    rw [struck] at found
    rw [hit_of_current current] at struck
    rcases counted : d.count now q with ⟨result, c⟩
    rw [counted] at struck found
    cases struck
    exact ⟨c, found, Counter.found_of_count counted⟩

def isBlocked (now : Nat) (key : String) (cs : Counters) : Bool :=
  (cs.get? key).any fun c => c.blockedUntil.any (now < ·)

theorem isBlocked_congr {cs ds : Counters} {key : String} (same : cs.get? key = ds.get? key)
    {now : Nat} : cs.isBlocked now key = ds.isBlocked now key := by
  rw [isBlocked, isBlocked, same]

theorem isBlocked_found {c c' : Counter} {now : Nat} {q : Quota} {h : Hit}
    (counted : c.count now q = (.ok h, c')) : h.isBlocked = c'.blockedUntil.isSome := by
  rw [Counter.found_of_count counted]
  rfl

/-- A hit that gets through finds its counter free and leaves it so. -/
theorem isBlocked_of_hit {now : Nat} {key : String} {q : Quota} {cs after : Counters} {h : Hit}
    (struck : hit now key q cs = (.ok h, after)) (through : h.isBlocked = false) :
    cs.isBlocked now key = false ∧ after.isBlocked now key = false := by
  cases current : Counter.current now q (cs.get? key) with
  | error e => simp [hit, current] at struck
  | ok c =>
    have found := get?_hit_self current
    rw [hit_of_current current] at struck found
    rcases counted : c.count now q with ⟨result, c'⟩
    rw [counted] at struck found
    cases struck
    have free : c'.blockedUntil = none := by
      rw [isBlocked_found counted] at through
      simpa using through
    constructor
    · -- A blocked counter would have been found as it was.
      cases stored : cs.get? key with
      | none => simp [isBlocked, stored]
      | some d =>
        cases block : d.blockedUntil with
        | none => simp [isBlocked, stored, block]
        | some u =>
          by_cases later : now < u
          · have live : d.isLapsed now = false := by simp [Counter.isLapsed, block, later]
            rw [stored, Counter.current_of_live live] at current
            cases current
            rw [Counter.count_of_blocked block] at counted
            cases counted
            rw [block] at free
            cases free
          · simp [isBlocked, stored, block, later]
    · simp [isBlocked, found, free]

theorem Ordered.hit {cs : Counters} (h : cs.Ordered) (now : Nat) (key : String) (q : Quota) :
    (Counters.hit now key q cs).2.Ordered := by
  simp only [Counters.hit]
  split
  · exact h
  · exact Keyed.Ordered.insert h _ _

theorem Ordered.cleanup {cs : Counters} (h : cs.Ordered) (now : Nat) :
    (cs.cleanup now).Ordered :=
  Keyed.Ordered.filter h _

theorem get?_cleanup {cs : Counters} (h : cs.Ordered) (now : Nat) (key : String) :
    (cs.cleanup now).get? key = (cs.get? key).filter fun c => !c.isLapsed now :=
  Keyed.get?_filter h (fun c => !c.isLapsed now) key

inductive Event where
  | hit (now : Nat) (key : String) (q : Quota)
  | cleanup (now : Nat)
  deriving DecidableEq, Repr

namespace Event

def time : Event → Nat
  | .hit now _ _ => now
  | .cleanup now => now

def after : Event → Counters → Counters
  | .hit now key q, cs => (Counters.hit now key q cs).2
  | .cleanup now, cs => cs.cleanup now

/-- The time of the event, if it is a hit on the key. -/
def hitTime? (key : String) : Event → Option Nat
  | .hit now k _ => if k = key then some now else none
  | .cleanup _ => none

end Event

theorem Ordered.after {cs : Counters} (h : cs.Ordered) (e : Event) : (e.after cs).Ordered := by
  cases e with
  | hit now key q => exact h.hit now key q
  | cleanup now => exact h.cleanup now

/-- A hit as its key's history tells it: when it came, whether it found no counter or a lapsed one,
and what came of it. -/
structure Strike where
  time : Nat
  opens : Bool
  outcome : Except ClockOverflow Hit

namespace Strike

def isAdmitted (s : Strike) : Bool :=
  match s.outcome with
  | .ok h => !h.isBlocked
  | .error _ => false

def isBlocked (s : Strike) : Bool :=
  match s.outcome with
  | .ok h => h.isBlocked
  | .error _ => false

end Strike

def strike (now : Nat) (key : String) (q : Quota) (cs : Counters) : Strike :=
  ⟨now, Counter.isOpening now (cs.get? key), (hit now key q cs).1⟩

/-- The hits on one key in a run of events. -/
def history (key : String) : List Event → Counters → List Strike
  | [], _ => []
  | .hit now k q :: es, cs =>
    let later := history key es ((Event.hit now k q).after cs)
    if k = key then strike now k q cs :: later else later
  | .cleanup now :: es, cs => history key es ((Event.cleanup now).after cs)

theorem history_times (key : String) (es : List Event) (cs : Counters) :
    (history key es cs).map Strike.time = es.filterMap (Event.hitTime? key) := by
  induction es generalizing cs with
  | nil => rfl
  | cons e es ih =>
    cases e with
    | hit now k q =>
      by_cases h : k = key <;> simp [history, Event.hitTime?, h, ih, strike]
    | cleanup now =>
      rw [List.filterMap_cons_none rfl]
      exact ih _

theorem time_of_hitTime? {key : String} {e : Event} {t : Nat} (h : e.hitTime? key = some t) :
    e.time = t := by
  cases e with
  | hit now k q =>
    simp only [Event.hitTime?] at h
    split at h
    · exact Option.some.inj h
    · cases h
  | cleanup now => cases h

/-- The hits on one key come in the order of the events. -/
theorem history_sorted {key : String} {es : List Event} {cs : Counters}
    (h : es.Pairwise fun a b => a.time ≤ b.time) :
    ((history key es cs).map Strike.time).Pairwise (· ≤ ·) := by
  rw [history_times]
  apply List.Pairwise.filterMap _ _ h
  intro a b hab s hs t ht
  rw [← time_of_hitTime? hs, ← time_of_hitTime? ht]
  exact hab

end Counters

end Turnstile
