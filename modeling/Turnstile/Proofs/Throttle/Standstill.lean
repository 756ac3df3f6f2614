import Turnstile.Proofs.Throttle.Strokes

/-!
A block from its first hit to the hit that ends it. The hit that blocks a counter sets the end of
the block by its own quota and its window (`block_of_free`); until then no hit moves it, whatever
its quota, and the first one after it starts a window (`blocks_stand_until_lapse`).
-/

namespace Turnstile

namespace Counter

theorem blockEnd_eq {c : Counter} {now u : Nat} {q : Quota} (ends : c.blockEnd now q = .ok u) :
    u = (q.block.map (now + ·)).getD c.expires := by
  unfold blockEnd at ends
  cases block : q.block with
  | none =>
    rw [block] at ends
    cases ends
    rfl
  | some d =>
    simp only [block, Clock.after] at ends
    split at ends <;> cases ends
    rfl

end Counter

namespace Counters

variable {cs : Counters} {key : String} {c : Counter} {now u : Nat} {q : Quota}

/-- A hit on a counter that is not blocked falls in a window that is not blocked. -/
theorem free_of_current (free : cs.isBlocked now key = false)
    (current : Counter.current now q (cs.get? key) = .ok c) : c.blockedUntil = none := by
  cases opening : Counter.isOpening now (cs.get? key) with
  | true =>
    by_cases fits : now + q.window < Clock.horizon
    · rw [Counter.current_of_opening opening fits] at current
      cases current
      rfl
    · rw [Counter.current_of_late opening fits] at current
      cases current
  | false =>
    cases stored : cs.get? key with
    | none => simp [stored, Counter.isOpening] at opening
    | some d =>
      have live : d.isLapsed now = false := by simpa [stored, Counter.isOpening] using opening
      rw [stored, Counter.current_of_live live] at current
      cases current
      -- A block that has not lapsed would refuse the hit.
      cases block : c.blockedUntil with
      | none => rfl
      | some u =>
        have gone : u ≤ now := by simpa [isBlocked, stored, block] using free
        exact absurd ((isLapsed_iff_of_blocked block).mpr gone) (by simp [live])

/-- The hit that blocks a counter: the block ends when the quota says, or with the window. -/
theorem block_of_free {h : Hit} {after : Counters} (free : cs.isBlocked now key = false)
    (struck : hit now key q cs = (.ok h, after)) (blocked : h.isBlocked = true) :
    ∃ c, after.get? key = some c ∧ h = c.found now ∧
      c.blockedUntil = some ((q.block.map (now + ·)).getD c.expires) := by
  cases current : Counter.current now q (cs.get? key) with
  | error e => simp [hit, current] at struck
  | ok d =>
    have unblocked := free_of_current free current
    obtain ⟨c, found, counts⟩ := counts_hit current
    rw [struck] at found counts
    cases counts with
    | blocked block => simp [unblocked] at block
    | room => simp [Counter.found, Counter.next, unblocked] at blocked
    | full _ _ ends => exact ⟨_, found, rfl, congrArg some (Counter.blockEnd_eq ends)⟩

/-- Whatever happens to the counters from a time on, a hit on the key before `u` finds its counter
as it was, blocked until then, and leaves it so. -/
def HoldsUntil (cs : Counters) (key : String) (since total expires u : Nat) : Prop :=
  ∀ es : List Event, es.Pairwise (fun a b => a.time ≤ b.time) → (∀ e ∈ es, since ≤ e.time) →
    ∀ now, since ≤ now → (∀ e ∈ es, e.time ≤ now) → now < u → ∀ q : Quota,
      (cs.run es).get? key = some ⟨total, expires, some u⟩ ∧
        (hit now key q (cs.run es)).1 = .ok ⟨total, expires - now, true, u - now⟩ ∧
        (hit now key q (cs.run es)).2.get? key = (cs.run es).get? key

/-- A hit on the key is the first of a window, under its own quota. -/
structure Restarts (now : Nat) (key : String) (q : Quota) (cs : Counters) : Prop where
  told : ∀ h, (hit now key q cs).1 = .ok h →
    h.total = 1 ∧ h.timeToExpire = q.window ∧ (h.isBlocked = true ↔ q.limit = 0)
  begins : now + q.window < Clock.horizon →
    ∃ c, (hit now key q cs).2.get? key = some c ∧ c.hits = 1 ∧ c.expires = now + q.window
  late : ¬ now + q.window < Clock.horizon → hit now key q cs = (.error .mk, cs)
  ends : q.Fits now → ∃ h, (hit now key q cs).1 = .ok h

/-- Whatever happens to the counters from a time on, the first hit on the key from `u` on starts a
window. -/
def RestartsFrom (cs : Counters) (key : String) (since u : Nat) : Prop :=
  ∀ es : List Event, es.Pairwise (fun a b => a.time ≤ b.time) → (∀ e ∈ es, since ≤ e.time) →
    (∀ t ∈ es.filterMap (Event.hitTime? key), t < u) →
    ∀ now, since ≤ now → (∀ e ∈ es, e.time ≤ now) → u ≤ now → ∀ q : Quota,
      (cs.run es).Restarts now key q

theorem restarts_of_opening (opening : Counter.isOpening now (cs.get? key) = true) (q : Quota) :
    cs.Restarts now key q := by
  have one : (Counter.opened now q).next.hits = 1 := by
    have some_room : 1 ≤ Counter.maxHits := by decide +kernel
    exact Nat.min_eq_left some_room
  by_cases fits : now + q.window < Clock.horizon
  · obtain ⟨c, found, counts⟩ := counts_hit (Counter.current_of_opening opening fits)
    have remaining : (Counter.opened now q).expires - now = q.window := Nat.add_sub_cancel_left ..
    refine ⟨?_, fun _ => ⟨c, found, ?_, counts.expires⟩, absurd fits, fun ends => hit_ok ends key cs⟩
    · intro h told
      rw [told] at counts
      cases counts with
      | blocked block => cases block
      | room _ le =>
        rw [one] at le
        refine ⟨one, remaining, ?_⟩
        simp only [Counter.found, Counter.next, Counter.opened]
        simpa using Nat.ne_of_gt le
      | full _ lt =>
        rw [one] at lt
        refine ⟨one, remaining, ?_⟩
        simpa [Counter.found] using lt
    · generalize (hit now key q cs).1 = outcome at counts
      cases counts with
      | blocked block => cases block
      | room | full | late => exact one
  · have late := hit_of_late opening fits
    refine ⟨?_, fun begins => absurd begins fits, fun _ => late, fun ends => absurd ends.1 fits⟩
    intro h told
    simp [late] at told

section Blocked

variable {total expires : Nat} (found : cs.get? key = some ⟨total, expires, some u⟩)
  (ordered : cs.Ordered)
include found ordered

theorem holdsUntil_of_blocked (since : Nat) : cs.HoldsUntil key since total expires u := by
  intro es sorted from_ now le past early q
  have before : ∀ t ∈ es.filterMap (Event.hitTime? key), t < u := by
    intro t mem
    obtain ⟨e, inside, struck⟩ := List.mem_filterMap.mp mem
    obtain rfl := time_of_hitTime? struck
    exact Nat.lt_of_le_of_lt (past e inside) early
  have rests := Rests.run rfl (.inl found) ordered sorted from_ before le past
  obtain stands | ⟨-, lapsed⟩ := rests
  · obtain ⟨told, kept⟩ := hit_of_blocked rfl stands early q
    exact ⟨stands, told, kept.trans stands.symm⟩
  · exact absurd ((isLapsed_iff_of_blocked rfl).mp lapsed) (Nat.not_le.mpr early)

theorem restartsFrom_of_blocked (since : Nat) : cs.RestartsFrom key since u := by
  intro es sorted from_ before now le past gone q
  have rests := Rests.run rfl (.inl found) ordered sorted from_ before le past
  apply restarts_of_opening
  exact rests.isOpening ((isLapsed_iff_of_blocked rfl).mpr gone)

end Blocked

/-- A block is neither extended nor shortened. The hit that blocks a counter is told the end of the
block, by its own quota or with its window, and until then every hit on the key is told the same and
leaves the counter as it is, whatever its quota; the first one from then on starts a window. In a
window no hit is blocked up to the first that exceeds its limit, and that one is not let through. -/
theorem blocks_stand_until_lapse {past : List Event}
    (sorted : past.Pairwise fun a b => a.time ≤ b.time) (key : String) :
    (∀ now q h after, (∀ e ∈ past, e.time ≤ now) → (empty.run past).isBlocked now key = false →
      hit now key q (empty.run past) = (.ok h, after) → h.isBlocked = true →
      let expires := expiry (lastWindow (onKey key (strokes (past ++ [.hit now key q]) empty)))
      let u := (q.block.map (now + ·)).getD expires
      h = ⟨h.total, expires - now, true, u - now⟩ ∧
        after.HoldsUntil key now h.total expires u ∧ after.RestartsFrom key now u) ∧
    ∀ v s, v ++ [s] <+: lastWindow (onKey key (strokes past empty)) →
      (Within (v ++ [s]) → s.strike.isBlocked = false) ∧
        (s.quota.limit ≤ v.length → s.quota.limit < Counter.maxHits →
          s.strike.isAdmitted = false) := by
  constructor
  · intro now q h after upto free struck blocked expires u
    have ordered : after.Ordered := by
      have later := (ordered_empty.run past).hit now key q
      rwa [struck] at later
    obtain ⟨c, found, rfl, block⟩ := block_of_free free struck blocked
    obtain ⟨-, behind⟩ := behind_lastWindow sorted upto key
    have window : expires = c.expires := by
      obtain ⟨-, ⟨d, left, stands⟩ | ⟨-, late⟩⟩ := behind.stands_hit q
      · rw [struck, found] at left
        cases left
        rw [stands.expires]
        simp only [expires, strokes_append, onKey_append, strokes, lastWindow, List.foldl_append]
        simp [onKey]
      · simp [struck] at late
    have same : c = ⟨(c.found now).total, expires, some u⟩ := by
      simp only [u, window, ← block, Counter.found]
    rw [same] at found
    refine ⟨?_, holdsUntil_of_blocked found ordered now, restartsFrom_of_blocked found ordered now⟩
    rw [same]
    rfl
  · intro v s front
    have upto : ∀ e ∈ past, e.time ≤ (past.map Event.time).max?.getD 0 := fun e inside =>
      List.le_max?_getD_of_mem (List.mem_map_of_mem inside)
    obtain ⟨fair, -⟩ := behind_lastWindow sorted upto key
    exact ⟨(fair v s front).within, (fair v s front).exceeding⟩

section Case

/-- A hit under a quota that admits one, and a hit on another key. -/
def firstHits : List Event := [.hit 0 "a" ⟨1, 100, none⟩, .hit 5 "b" ⟨0, 7, none⟩]

/-- A block that ends before its window. Hits that would block for longer, a removal and hits on
another key do not move it, and the window starts anew as it ends. -/
theorem block_of_thirty_stands :
    let blocking := hit 10 "a" ⟨1, 50, some 30⟩ (empty.run firstHits)
    let later : List Event := [.hit 20 "a" ⟨9, 9, some 1000⟩, .cleanup 30, .hit 35 "b" ⟨3, 4, none⟩]
    blocking.1 = .ok ⟨2, 90, true, 30⟩ ∧
    (hit 39 "a" ⟨9, 7, none⟩ (blocking.2.run later)).1 = .ok ⟨2, 61, true, 1⟩ ∧
    (blocking.2.run later).Restarts 40 "a" ⟨9, 7, none⟩ ∧
    (∀ v s, v ++ [s] <+: lastWindow (onKey "a" (strokes firstHits empty)) →
      Within (v ++ [s]) → s.strike.isBlocked = false) := by
  intro blocking later
  have sorted : firstHits.Pairwise fun a b => a.time ≤ b.time := by decide
  have struck : blocking = (.ok ⟨2, 90, true, 30⟩, blocking.2) := by decide
  obtain ⟨stands, free⟩ := blocks_stand_until_lapse sorted "a"
  obtain ⟨-, holds, restarts⟩ := stands 10 ⟨1, 50, some 30⟩ _ blocking.2 (by decide) (by decide)
    struck rfl
  have inOrder : later.Pairwise fun a b => a.time ≤ b.time := by decide
  obtain ⟨-, told, -⟩ := holds later inOrder (by decide) 39 (by decide) (by decide) (by decide)
    ⟨9, 7, none⟩
  refine ⟨by decide, told, ?_, fun v s front => (free v s front).1⟩
  exact restarts later inOrder (by decide) (by decide) 40 (by decide) (by decide) (by decide) _

end Case

end Counters

end Turnstile
