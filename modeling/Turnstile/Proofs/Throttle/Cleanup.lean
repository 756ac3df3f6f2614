import Turnstile.Proofs.Throttle.Counter

/-!
Removing lapsed counters is invisible to hits. A hit treats a lapsed counter as it treats none, so
tables with the same live counters tell every hit the same; and they go on having the same live
counters when time passes, when both count a hit, and when lapsed counters are removed from one of
them. `outcomes_without_cleanups` says so of whole runs, whatever the quotas of the hits are.
-/

namespace Turnstile

namespace Counter

/-- What is left of a counter that may have lapsed. -/
def ifLive (now : Nat) (o : Option Counter) : Option Counter := o.filter fun c => !c.isLapsed now

theorem isLapsed_mono {c : Counter} {now later : Nat} (le : now ≤ later)
    (lapsed : c.isLapsed now = true) : c.isLapsed later = true := by
  rw [isLapsed_iff] at lapsed ⊢
  exact Nat.le_trans lapsed le

/-- What has lapsed stays so. -/
theorem ifLive_ifLive {now later : Nat} (le : now ≤ later) (o : Option Counter) :
    ifLive later (ifLive now o) = ifLive later o := by
  cases o with
  | none => rfl
  | some c =>
    by_cases lapsed : c.isLapsed now = true
    · have still := isLapsed_mono le lapsed
      simp [ifLive, Option.filter, lapsed, still]
    · simp [ifLive, Option.filter, lapsed]

/-- A hit falls into the same window whether a lapsed counter is still there or not. -/
theorem current_ifLive (now : Nat) (q : Quota) (o : Option Counter) :
    current now q (ifLive now o) = current now q o := by
  cases o with
  | none => rfl
  | some c =>
    by_cases lapsed : c.isLapsed now = true
    · have gone : ifLive now (some c) = none := by simp [ifLive, lapsed]
      rw [gone]
      simp [current, lapsed]
    · have kept : ifLive now (some c) = some c := by simp [ifLive, lapsed]
      rw [kept]

end Counter

namespace Counters

def live? (now : Nat) (key : String) (cs : Counters) : Option Counter :=
  Counter.ifLive now (cs.get? key)

/-- Both tables have the same live counters. -/
def Agree (now : Nat) (cs ds : Counters) : Prop := ∀ key, cs.live? now key = ds.live? now key

theorem Agree.refl (now : Nat) (cs : Counters) : Agree now cs cs := fun _ => rfl

theorem Agree.later {now later : Nat} {cs ds : Counters} (h : Agree now cs ds)
    (le : now ≤ later) : Agree later cs ds := by
  intro key
  have same := h key
  unfold live? at same ⊢
  rw [← Counter.ifLive_ifLive le (cs.get? key), same, Counter.ifLive_ifLive le]

theorem live?_cleanup {cs : Counters} (ordered : cs.Ordered) (now : Nat) (key : String) :
    (cs.cleanup now).live? now key = cs.live? now key := by
  unfold live?
  rw [get?_cleanup ordered]
  exact Counter.ifLive_ifLive (Nat.le_refl now) (cs.get? key)

theorem Agree.cleanup {now : Nat} {cs ds : Counters} (h : Agree now cs ds)
    (ordered : cs.Ordered) : Agree now (cs.cleanup now) ds := by
  intro key
  rw [live?_cleanup ordered]
  exact h key

/-- A hit finds the same in both tables and leaves them with the same live counters. -/
theorem Agree.hit {now : Nat} {cs ds : Counters} (h : Agree now cs ds) (key : String)
    (q : Quota) :
    (Counters.hit now key q cs).1 = (Counters.hit now key q ds).1 ∧
      Agree now (Counters.hit now key q cs).2 (Counters.hit now key q ds).2 := by
  have window : Counter.current now q (cs.get? key) = Counter.current now q (ds.get? key) := by
    have same := h key
    unfold live? at same
    rw [← Counter.current_ifLive, same, Counter.current_ifLive]
  cases found : Counter.current now q (ds.get? key) with
  | error e =>
    rw [found] at window
    simp only [Counters.hit, window, found]
    exact ⟨trivial, h⟩
  | ok c =>
    rw [found] at window
    rw [hit_of_current window, hit_of_current found]
    refine ⟨rfl, ?_⟩
    intro k
    have before := h k
    unfold live? get? at before ⊢
    rw [Keyed.get?_insert, Keyed.get?_insert]
    by_cases own : key = k
    · rw [if_pos own, if_pos own]
    · rwa [if_neg own, if_neg own]

def Event.isHit : Event → Bool
  | .hit _ _ _ => true
  | .cleanup _ => false

/-- What the hits of a run find, in the order of the hits. -/
def outcomes : List Event → Counters → List (Except ClockOverflow Hit)
  | [], _ => []
  | .hit now key q :: es, cs =>
    (hit now key q cs).1 :: outcomes es ((Event.hit now key q).after cs)
  | .cleanup now :: es, cs => outcomes es ((Event.cleanup now).after cs)

/-- Of two tables with the same live counters one goes through the whole run and the other through
its hits only. -/
theorem outcomes_of_agree {now : Nat} {cs ds : Counters} {es : List Event} (ordered : cs.Ordered)
    (agree : Agree now cs ds) (sorted : es.Pairwise fun a b => a.time ≤ b.time)
    (since : ∀ e ∈ es, now ≤ e.time) : outcomes es cs = outcomes (es.filter Event.isHit) ds := by
  -- The tables agree at the time of the event before; by the next one more counters may have lapsed.
  induction es generalizing cs ds now with
  | nil => rfl
  | cons e es ih =>
    obtain ⟨first, rest⟩ := List.pairwise_cons.mp sorted
    have reached := since e (by simp)
    have ordered' := ordered.after e
    cases e with
    | hit t key q =>
      have agree : Agree t cs ds := agree.later reached
      obtain ⟨same, agree⟩ := agree.hit key q
      rw [List.filter_cons_of_pos rfl, outcomes, outcomes, same]
      congr 1
      exact ih ordered' agree rest first
    | cleanup t =>
      have agree : Agree t cs ds := agree.later reached
      rw [List.filter_cons_of_neg (by simp [Event.isHit]), outcomes]
      exact ih ordered' (agree.cleanup ordered) rest first

theorem outcomes_ok {es : List Event} {cs : Counters}
    (fits : ∀ now key q, .hit now key q ∈ es → q.Fits now) :
    ∀ r ∈ outcomes es cs, ∃ h, r = .ok h := by
  induction es generalizing cs with
  | nil => exact nofun
  | cons e es ih =>
    have later := @ih (e.after cs) fun now key q mem => fits now key q (List.mem_cons_of_mem _ mem)
    cases e with
    | hit now key q =>
      intro r mem
      rcases List.mem_cons.mp mem with rfl | mem
      · exact hit_ok (fits now key q (by simp)) key cs
      · exact later r mem
    | cleanup now => exact later

/-- Wherever lapsed counters are removed in a run, its hits find what they find without that. All of
them find something if their quotas fit the clock. -/
theorem outcomes_without_cleanups {cs : Counters} {es : List Event} (ordered : cs.Ordered)
    (sorted : es.Pairwise fun a b => a.time ≤ b.time) :
    outcomes es cs = outcomes (es.filter Event.isHit) cs ∧
      ((∀ now key q, .hit now key q ∈ es → q.Fits now) →
        ∀ r ∈ outcomes es cs, ∃ h, r = .ok h) := by
  refine ⟨?_, outcomes_ok⟩
  apply outcomes_of_agree ordered (Agree.refl 0 cs) sorted
  intro e _
  exact Nat.zero_le e.time

/-- A counter that is removed as its block ends, long before its window does, and another that is
removed as its window ends and once more as its block does, under three quotas. -/
theorem outcomes_without_three_cleanups :
    let cs : Counters := ⟨[("a", ⟨3, 100, some 50⟩), ("b", ⟨1, 20, none⟩)]⟩
    let es : List Event := [.hit 10 "a" ⟨2, 100, some 30⟩, .cleanup 20, .hit 20 "b" ⟨1, 40, none⟩,
      .cleanup 50, .hit 50 "a" ⟨2, 100, none⟩, .hit 55 "b" ⟨1, 9, none⟩, .cleanup 60,
      .hit 60 "b" ⟨0, 7, some 9⟩]
    cs.Ordered ∧ (es.Pairwise fun a b => a.time ≤ b.time) ∧
    outcomes es cs = outcomes (es.filter Event.isHit) cs ∧
    outcomes es cs = [.ok ⟨3, 90, true, 40⟩, .ok ⟨1, 40, false, 0⟩, .ok ⟨1, 100, false, 0⟩,
      .ok ⟨2, 5, true, 5⟩, .ok ⟨1, 7, true, 9⟩] := by
  intro cs es
  have ordered : cs.Ordered := by
    show ["a", "b"].Pairwise (· < ·)
    decide
  have sorted : es.Pairwise fun a b => a.time ≤ b.time := by decide
  exact ⟨ordered, sorted, (outcomes_without_cleanups ordered sorted).1, rfl⟩

end Counters

end Turnstile
