import Turnstile.Proofs.Throttle.Blocks

/-!
The hits on a counter, each under a quota of its own. `Counts` is all that a hit can do to a counter
that has not lapsed, `Stands` what a counter says of the hits in its window, whatever their quotas,
and `Fair` what each of them is told. A run of events from the beginning leaves a counter that
stands for the last window of its hits, and each of these has been told the right
(`behind_lastWindow`).
-/

namespace Turnstile

namespace Counter

/-- The counter with one more hit. -/
def next (c : Counter) : Counter := { c with hits := min (c.hits + 1) maxHits }

/-- What a hit does to a counter in its window: it finds a block, finds room, blocks the counter, or
would block it beyond the end of the clock. -/
inductive Counts (now : Nat) (q : Quota) (c : Counter) : Except ClockOverflow Hit → Counter → Prop
  | blocked {u : Nat} (block : c.blockedUntil = some u) : Counts now q c (.ok (c.found now)) c
  | room (free : c.blockedUntil = none) (le : c.next.hits ≤ q.limit) :
      Counts now q c (.ok (c.next.found now)) c.next
  | full {u : Nat} (free : c.blockedUntil = none) (lt : q.limit < c.next.hits)
      (ends : c.blockEnd now q = .ok u) :
      Counts now q c (.ok ({ c.next with blockedUntil := some u }.found now))
        { c.next with blockedUntil := some u }
  | late {e : ClockOverflow} (free : c.blockedUntil = none) (lt : q.limit < c.next.hits)
      (ends : c.blockEnd now q = .error e) : Counts now q c (.error e) c.next

theorem counts_count (now : Nat) (q : Quota) (c : Counter) :
    Counts now q c (c.count now q).1 (c.count now q).2 := by
  cases block : c.blockedUntil with
  | some u =>
    rw [count_of_blocked block]
    exact .blocked block
  | none =>
    have same : { c with hits := min (c.hits + 1) maxHits, blockedUntil := none } = c.next := by
      rw [next, block]
    simp only [count, block, same]
    by_cases le : c.next.hits ≤ q.limit
    · rw [if_pos (show min (c.hits + 1) maxHits ≤ q.limit from le)]
      exact .room block le
    · have lt : q.limit < c.next.hits := Nat.lt_of_not_le le
      have ends : c.next.blockEnd now q = c.blockEnd now q := rfl
      rw [if_neg (show ¬ min (c.hits + 1) maxHits ≤ q.limit from le), ends]
      cases u : c.blockEnd now q with
      | ok u => exact .full block lt u
      | error e => exact .late block lt u

theorem Counts.expires {now : Nat} {q : Quota} {c c' : Counter} {outcome : Except ClockOverflow Hit}
    (h : Counts now q c outcome c') : c'.expires = c.expires := by
  cases h <;> rfl

/-- A block of the counter is an older one, or the hit is told of it. -/
theorem Counts.block_cases {now u : Nat} {q : Quota} {c c' : Counter}
    {outcome : Except ClockOverflow Hit} (h : Counts now q c outcome c')
    (block : c'.blockedUntil = some u) :
    c.blockedUntil = some u ∨
      ∃ hit, outcome = .ok hit ∧ hit.isBlocked = true ∧ hit.timeToUnblock = u - now := by
  cases h with
  | blocked => exact .inl block
  | room free | late free => simp [next, free] at block
  | full =>
    cases block
    exact .inr ⟨_, rfl, rfl, rfl⟩

/-- A hit that leaves a counter free, and has not found it lapsed, comes before its window ends. -/
theorem Counts.lt_expires {now : Nat} {q : Quota} {c c' : Counter} {h : Hit}
    (counts : Counts now q c (.ok h) c') (free : c'.blockedUntil = none)
    (live : c.isLapsed now = false) : now < c.expires := by
  rw [← Bool.not_eq_true, isLapsed_iff] at live
  cases counts with
  | blocked block => simp [block] at free
  | room unblocked => simpa [lapse, unblocked] using live
  | full => simp at free

end Counter

namespace Counters

theorem Strike.isBlocked_of_isAdmitted {s : Strike} (h : s.isAdmitted = true) :
    s.isBlocked = false := by
  unfold isAdmitted at h
  unfold isBlocked
  split at h <;> simp_all

/-- A hit counts on the counter that it falls on, the one that it finds or a new one. -/
theorem counts_hit {now : Nat} {key : String} {q : Quota} {cs : Counters} {c : Counter}
    (current : Counter.current now q (cs.get? key) = .ok c) :
    ∃ c', (hit now key q cs).2.get? key = some c' ∧
      Counter.Counts now q c (hit now key q cs).1 c' := by
  refine ⟨_, get?_hit_self current, ?_⟩
  rw [hit_of_current current]
  exact Counter.counts_count now q c

structure Stroke where
  key : String
  quota : Quota
  strike : Strike

def strokes : List Event → Counters → List Stroke
  | [], _ => []
  | .hit now key q :: es, cs =>
    ⟨key, q, strike now key q cs⟩ :: strokes es ((Event.hit now key q).after cs)
  | .cleanup now :: es, cs => strokes es ((Event.cleanup now).after cs)

def onKey (key : String) (ss : List Stroke) : List Stroke := ss.filter (·.key == key)

/-- The hits of a window with the next hit on its counter, which may start a window of its own. -/
def push (w : List Stroke) (s : Stroke) : List Stroke :=
  if s.strike.opens then [s] else w ++ [s]

/-- The window of a counter after some hits: the last one that started a window, and all later
ones. -/
def lastWindow (ss : List Stroke) : List Stroke := ss.foldl push []

def expiry (w : List Stroke) : Nat :=
  (w.head?.map fun s => s.strike.time + s.quota.window).getD 0

/-- No hit of the window exceeds its own limit. -/
def Within (w : List Stroke) : Prop := ∀ i (s : Stroke), w[i]? = some s → i < s.quota.limit

/-- What a counter says of the hits in its window. -/
structure Tallies (w : List Stroke) (c : Counter) : Prop where
  hits : c.blockedUntil = none → c.hits = min w.length Counter.maxHits
  free : Within w → c.blockedUntil = none

structure Stands (w : List Stroke) (c : Counter) : Prop extends Tallies w c where
  begun : w ≠ []
  expires : c.expires = expiry w

/-- No time that the hit adds to the clock goes beyond its end. Only the first hit of a window adds
the length of the window. -/
def Stroke.Fits (s : Stroke) : Prop :=
  (s.strike.opens = true → s.strike.time + s.quota.window < Clock.horizon) ∧
    ∀ d ∈ s.quota.block, s.strike.time + d < Clock.horizon

/-- What a hit is told behind the hits `w` of its window. -/
structure Fair (w : List Stroke) (s : Stroke) : Prop where
  counted : ∀ h, s.strike.outcome = .ok h → h.isBlocked = false →
    h.total = min (w.length + 1) Counter.maxHits ∧ h.total ≤ s.quota.limit ∧
      h.timeToExpire = expiry (w ++ [s]) - s.strike.time
  within : Within (w ++ [s]) → s.strike.isBlocked = false
  room : Within (w ++ [s]) → (s.strike.opens = true → s.strike.time + s.quota.window < Clock.horizon) →
    s.strike.isAdmitted = true
  exceeding : s.quota.limit ≤ w.length → s.quota.limit < Counter.maxHits →
    s.strike.isAdmitted = false
  ends : s.Fits → ∃ h, s.strike.outcome = .ok h

theorem run_append (es fs : List Event) (cs : Counters) : cs.run (es ++ fs) = (cs.run es).run fs :=
  List.foldl_append

theorem strokes_append (es fs : List Event) (cs : Counters) :
    strokes (es ++ fs) cs = strokes es cs ++ strokes fs (cs.run es) := by
  induction es generalizing cs with
  | nil => rfl
  | cons e es ih =>
    cases e with
    | hit now key q => exact congrArg _ (ih _)
    | cleanup now => exact ih _

theorem onKey_append (key : String) (ss ts : List Stroke) :
    onKey key (ss ++ ts) = onKey key ss ++ onKey key ts :=
  List.filter_append ss ts

theorem onKey_strokes_hit (now : Nat) (key : String) (q : Quota) (es : List Event)
    (cs : Counters) :
    onKey key (strokes (.hit now key q :: es) cs) =
      ⟨key, q, strike now key q cs⟩ :: onKey key (strokes es (hit now key q cs).2) :=
  List.filter_cons_of_pos (beq_self_eq_true key)

theorem onKey_strokes_hit_of_ne {key k : String} (ne : k ≠ key) (now : Nat) (q : Quota)
    (es : List Event) (cs : Counters) :
    onKey key (strokes (.hit now k q :: es) cs) = onKey key (strokes es (hit now k q cs).2) :=
  List.filter_cons_of_neg (by simpa using ne)

theorem expiry_snoc {w : List Stroke} (begun : w ≠ []) (s : Stroke) :
    expiry (w ++ [s]) = expiry w := by
  cases w with
  | nil => exact absurd rfl begun
  | cons a w => rfl

theorem Within.of_append {w v : List Stroke} (h : Within (w ++ v)) : Within w := by
  intro i s mem
  obtain ⟨inside, -⟩ := List.getElem?_eq_some_iff.mp mem
  apply h i s
  rw [List.getElem?_append_left inside, mem]

/-- The last hit of a window that no hit exceeds comes behind fewer than its limit. -/
theorem Within.length_lt {w : List Stroke} {s : Stroke} (h : Within (w ++ [s])) :
    w.length < s.quota.limit := by
  apply h w.length s
  simp

variable {w : List Stroke} {s : Stroke} {c c' : Counter}

theorem tallies_opened (now : Nat) (q : Quota) : Tallies [] (Counter.opened now q) where
  hits _ := rfl
  free _ := rfl

theorem Tallies.hits_next (h : Tallies w c) (free : c.blockedUntil = none) :
    c.next.hits = min (w.length + 1) Counter.maxHits := by
  have before := h.hits free
  simp only [Counter.next]
  omega

/-- A hit that leaves its window without excess finds room. -/
theorem Tallies.room (h : Tallies w c) (inside : Within (w ++ [s])) :
    c.blockedUntil = none ∧ c.next.hits ≤ s.quota.limit := by
  have free := h.free inside.of_append
  have next := h.hits_next free
  have lt := inside.length_lt
  exact ⟨free, by omega⟩

theorem Tallies.of_counts (h : Tallies w c)
    (counts : Counter.Counts s.strike.time s.quota c s.strike.outcome c') :
    Tallies (w ++ [s]) c' := by
  have length : (w ++ [s]).length = w.length + 1 := by simp
  constructor
  · intro free
    rw [length]
    generalize s.strike.outcome = outcome at counts
    cases counts with
    | blocked block => simp [free] at block
    | room unblocked => exact h.hits_next unblocked
    | full => simp at free
    | late unblocked => exact h.hits_next unblocked
  · intro inside
    obtain ⟨free, le⟩ := h.room inside
    generalize s.strike.outcome = outcome at counts
    cases counts with
    | blocked => exact free
    | room => exact free
    | full _ lt => exact absurd le (Nat.not_le.mpr lt)
    | late _ lt => exact absurd le (Nat.not_le.mpr lt)

/-- A hit that leaves its window without excess is let through. -/
theorem Tallies.admitted (h : Tallies w c) (inside : Within (w ++ [s]))
    (counts : Counter.Counts s.strike.time s.quota c s.strike.outcome c') :
    s.strike.isAdmitted = true := by
  obtain ⟨free, le⟩ := h.room inside
  unfold Strike.isAdmitted
  generalize s.strike.outcome = outcome at counts
  cases counts with
  | blocked block => simp [free] at block
  | room => simp [Counter.found, Counter.next, free]
  | full _ lt | late _ lt => exact absurd le (Nat.not_le.mpr lt)

theorem Tallies.fair (h : Tallies w c) (expires : c.expires = expiry (w ++ [s]))
    (counts : Counter.Counts s.strike.time s.quota c s.strike.outcome c') : Fair w s where
  counted := by
    intro found told through
    rw [told] at counts
    cases counts with
    | blocked block => simp [Counter.found, block] at through
    | room free le => exact ⟨h.hits_next free, le, congrArg (· - s.strike.time) expires⟩
    | full => simp [Counter.found] at through
  within inside := Strike.isBlocked_of_isAdmitted (h.admitted inside counts)
  room inside _ := h.admitted inside counts
  exceeding := by
    intro reached bounded
    unfold Strike.isAdmitted
    generalize s.strike.outcome = outcome at counts
    cases counts with
    | blocked block => simp [Counter.found, block]
    | room free le =>
      have next := h.hits_next free
      omega
    | full => simp [Counter.found]
    | late => rfl
  ends := by
    intro fits
    generalize s.strike.outcome = outcome at counts
    cases counts with
    | blocked | room | full => exact ⟨_, rfl⟩
    | late _ _ failed =>
      obtain ⟨u, ended⟩ := Counter.blockEnd_ok fits.2 c
      simp [ended] at failed

variable {key : String} {cs : Counters} {now : Nat}

/-- A hit on a counter that stands and has not lapsed goes on with its window. -/
theorem Stands.hit (stands : Stands w c) (found : cs.get? key = some c)
    (live : c.isLapsed now = false) (q : Quota) :
    let s : Stroke := ⟨key, q, strike now key q cs⟩
    s.strike.opens = false ∧ Fair w s ∧
      ∃ c', (Counters.hit now key q cs).2.get? key = some c' ∧ Stands (w ++ [s]) c' ∧
        Counter.Counts now q c s.strike.outcome c' := by
  intro s
  have current : Counter.current now q (cs.get? key) = .ok c := by
    rw [found, Counter.current_of_live live]
  obtain ⟨c', left, counts⟩ := counts_hit current
  have expires : c.expires = expiry (w ++ [s]) :=
    stands.expires.trans (expiry_snoc stands.begun s).symm
  have stays : s.strike.opens = false := by
    show Counter.isOpening now (cs.get? key) = false
    rw [found]
    exact live
  refine ⟨stays, stands.fair (s := s) expires counts, c', left, ?_, counts⟩
  exact ⟨stands.of_counts (s := s) counts, by simp, counts.expires.trans expires⟩

/-- The hit that finds no counter, or a lapsed one, is told as the first of its window. Its counter
stands for the window, unless the window would end beyond the clock. -/
theorem fair_of_opening (opening : Counter.isOpening now (cs.get? key) = true) (q : Quota) :
    let s : Stroke := ⟨key, q, strike now key q cs⟩
    Fair [] s ∧
      ((now + q.window < Clock.horizon ∧
          ∃ c, (Counters.hit now key q cs).2.get? key = some c ∧ Stands [s] c) ∨
        (¬ now + q.window < Clock.horizon ∧ Counters.hit now key q cs = (.error .mk, cs))) := by
  intro s
  by_cases fits : now + q.window < Clock.horizon
  · obtain ⟨c, found, counts⟩ := counts_hit (Counter.current_of_opening opening fits)
    have tallies := tallies_opened now q
    refine ⟨tallies.fair (s := s) rfl counts, .inl ⟨fits, c, found, ?_⟩⟩
    exact ⟨tallies.of_counts (s := s) counts, by simp, counts.expires⟩
  · have late := hit_of_late opening fits
    have failed : s.strike.outcome = .error .mk := congrArg Prod.fst late
    refine ⟨?_, .inr ⟨fits, late⟩⟩
    exact {
      counted := fun h told => by simp [failed] at told
      within := fun _ => by simp [Strike.isBlocked, failed]
      room := fun _ ends => absurd (ends opening) fits
      exceeding := fun _ _ => by simp [Strike.isAdmitted, failed]
      ends := fun ends => absurd (ends.1 opening) fits }

/-- What is stored behind a window: nothing that the next hit would go on with, or its counter. -/
inductive Behind (w : List Stroke) (now : Nat) (o : Option Counter) : Prop
  | opening (h : Counter.isOpening now o = true)
  | standing {c : Counter} (found : o = some c) (stands : Stands w c)

theorem isOpening_later {o : Option Counter} {later : Nat} (le : now ≤ later)
    (h : Counter.isOpening now o = true) : Counter.isOpening later o = true := by
  cases o with
  | none => rfl
  | some c =>
    have lapsed : c.lapse ≤ now := Counter.isLapsed_iff.mp h
    exact Counter.isLapsed_iff.mpr (Nat.le_trans lapsed le)

theorem Behind.later {o : Option Counter} {later : Nat} (h : Behind w now o) (le : now ≤ later) :
    Behind w later o := by
  cases h with
  | opening h => exact .opening (isOpening_later le h)
  | standing found stands => exact .standing found stands

theorem Behind.cleanup (h : Behind w now (cs.get? key)) (ordered : cs.Ordered) :
    Behind w now ((cs.cleanup now).get? key) := by
  have kept := get?_cleanup ordered now key
  cases h with
  | opening h =>
    apply Behind.opening
    cases stored : cs.get? key with
    | none => simp [kept, stored, Counter.isOpening]
    | some c =>
      have lapsed : c.isLapsed now = true := by simpa [Counter.isOpening, stored] using h
      simp [kept, stored, Option.filter, lapsed, Counter.isOpening]
  | @standing c found stands =>
    cases lapsed : c.isLapsed now with
    | true => exact .opening (by simp [kept, found, Option.filter, lapsed, Counter.isOpening])
    | false => exact .standing (by simp [kept, found, Option.filter, lapsed]) stands

/-- A hit is told the right of the window that it falls in, and leaves a counter that stands for it,
unless it would start a window that ends beyond the clock. -/
theorem Behind.stands_hit (h : Behind w now (cs.get? key)) (q : Quota) :
    let s : Stroke := ⟨key, q, strike now key q cs⟩
    Fair (if s.strike.opens then [] else w) s ∧
      ((∃ c, (Counters.hit now key q cs).2.get? key = some c ∧ Stands (push w s) c) ∨
        (s.strike.opens = true ∧ Counters.hit now key q cs = (.error .mk, cs))) := by
  intro s
  cases opens : Counter.isOpening now (cs.get? key) with
  | true =>
    have first : s.strike.opens = true := opens
    rw [push, if_pos first, if_pos first]
    obtain ⟨fair, ⟨-, stands⟩ | ⟨-, late⟩⟩ := fair_of_opening opens q
    · exact ⟨fair, .inl stands⟩
    · exact ⟨fair, .inr ⟨first, late⟩⟩
  | false =>
    cases h with
    | opening h => simp [opens] at h
    | @standing c found stands =>
      have live : c.isLapsed now = false := by simpa [Counter.isOpening, found] using opens
      obtain ⟨stays, fair, c', after, stands, -⟩ := stands.hit found live q
      rw [push, stays, if_neg Bool.false_ne_true, if_neg Bool.false_ne_true]
      exact ⟨fair, .inl ⟨c', after, stands⟩⟩

theorem Behind.hit (h : Behind w now (cs.get? key)) (q : Quota) :
    Behind (push w ⟨key, q, strike now key q cs⟩) now ((Counters.hit now key q cs).2.get? key) := by
  obtain ⟨-, ⟨c, found, stands⟩ | ⟨opens, late⟩⟩ := h.stands_hit q
  · exact .standing found stands
  · apply Behind.opening
    rw [late]
    exact opens

/-- Each hit of the window was told the right behind the earlier ones. -/
def AllFair (w : List Stroke) : Prop := ∀ v s, v ++ [s] <+: w → Fair v s

theorem AllFair.push (h : AllFair w) (fair : Fair (if s.strike.opens then [] else w) s) :
    AllFair (push w s) := by
  intro v t front
  cases opens : s.strike.opens with
  | true =>
    simp only [opens, if_true] at fair
    simp only [Counters.push, opens, if_true] at front
    obtain ⟨rfl, rfl⟩ : v = [] ∧ t = s := by
      cases v with
      | nil => simpa using front
      | cons a v => simp at front
    exact fair
  | false =>
    simp only [opens, Bool.false_eq_true, if_false] at fair
    simp only [Counters.push, opens, Bool.false_eq_true, if_false] at front
    obtain same | front := List.prefix_concat_iff.mp front
    · obtain ⟨rfl, last⟩ := List.append_inj' same rfl
      obtain rfl := List.singleton_inj.mp last
      exact fair
    · exact h v t front

/-- After a run of events a counter stands behind the last window of its hits, each of which was
told the right. -/
theorem Behind.run {es : List Event} {last : Nat} (h : Behind w now (cs.get? key))
    (ordered : cs.Ordered) (fair : AllFair w) (sorted : es.Pairwise fun a b => a.time ≤ b.time)
    (since : ∀ e ∈ es, now ≤ e.time) (upto : ∀ e ∈ es, e.time ≤ last) (le : now ≤ last) :
    let v := (onKey key (strokes es cs)).foldl Counters.push w
    AllFair v ∧ Behind v last ((cs.run es).get? key) := by
  induction es generalizing cs w now with
  | nil => exact ⟨fair, h.later le⟩
  | cons e es ih =>
    obtain ⟨first, rest⟩ := List.pairwise_cons.mp sorted
    have h := h.later (since e List.mem_cons_self)
    obtain ⟨passed, before⟩ := List.forall_mem_cons.mp upto
    cases e with
    | cleanup t => exact ih (h.cleanup ordered) (ordered.cleanup t) fair rest first before passed
    | hit t k q =>
      by_cases own : k = key
      · subst own
        obtain ⟨here, -⟩ := h.stands_hit q
        rw [onKey_strokes_hit]
        exact ih (h.hit q) (ordered.hit t k q) (fair.push here) rest first before passed
      · have same : (Counters.hit t k q cs).2.get? key = cs.get? key := get?_hit_of_ne own
        rw [onKey_strokes_hit_of_ne own]
        exact ih (same ▸ h) (ordered.hit t k q) fair rest first before passed

/-- Behind the hits of a run from the beginning. -/
theorem behind_lastWindow {es : List Event} {last : Nat}
    (sorted : es.Pairwise fun a b => a.time ≤ b.time) (upto : ∀ e ∈ es, e.time ≤ last)
    (key : String) :
    let w := lastWindow (onKey key (strokes es empty))
    AllFair w ∧ Behind w last ((empty.run es).get? key) := by
  have fair : AllFair [] := by
    intro v s front
    simp at front
  have start : Behind [] 0 (empty.get? key) := .opening rfl
  exact start.run ordered_empty fair sorted (fun e _ => Nat.zero_le e.time) upto (Nat.zero_le last)

end Counters

end Turnstile
