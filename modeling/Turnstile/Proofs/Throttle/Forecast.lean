import Turnstile.Proofs.Throttle.Strokes

/-!
The hits to come on a counter. From a counter that stands for its window the hits go on with it until
it lapses (`fair_of_stands`), so a hit that is let through says of the later ones how many will be:
`foretold_of_hit` has that for hits under one limit, whatever else is hit or removed between them.
-/

namespace Turnstile

namespace Counters

/-- No block that an earlier hit was told of has lapsed by then. -/
def Unlapsed (earlier : List Stroke) (t : Nat) : Prop :=
  ∀ b ∈ earlier, ∀ h, b.strike.outcome = .ok h → h.isBlocked = true →
    t < b.strike.time + h.timeToUnblock

/-- The hits `next` behind the hits `w` of a window, under one limit. As many as are left of it are
let through while the window lasts. Those behind them are not while the first block lasts as well,
and are blocked where a block can be added to the clock. -/
structure Foretold (w : List Stroke) (limit : Nat) (next : List Stroke) : Prop where
  admits : ∀ i (s : Stroke), next[i]? = some s → s.strike.time < expiry w →
    i < limit - w.length → s.strike.isAdmitted = true
  refuses : ∀ i (s : Stroke), next[i]? = some s → s.strike.time < expiry w →
    limit - w.length ≤ i → Unlapsed (next.take i) s.strike.time →
      s.strike.isAdmitted = false ∧
        ((∀ d ∈ s.quota.block, s.strike.time + d < Clock.horizon) → s.strike.isBlocked = true)

theorem exists_event_of_mem {es : List Event} {cs : Counters} {s : Stroke}
    (mem : s ∈ strokes es cs) : ∃ e ∈ es, e.time = s.strike.time := by
  induction es generalizing cs with
  | nil => cases mem
  | cons e es ih =>
    have later {ds : Counters} (mem : s ∈ strokes es ds) :
        ∃ d ∈ e :: es, d.time = s.strike.time := by
      obtain ⟨d, inside, same⟩ := ih mem
      exact ⟨d, List.mem_cons_of_mem e inside, same⟩
    cases e with
    | hit now key q =>
      obtain rfl | mem := List.mem_cons.mp mem
      · exact ⟨_, List.mem_cons_self, rfl⟩
      · exact later mem
    | cleanup now => exact later mem

/-- The hits come in the order of the events. -/
theorem strokes_sorted {es : List Event} (sorted : es.Pairwise fun a b => a.time ≤ b.time)
    (cs : Counters) : (strokes es cs).Pairwise fun a b => a.strike.time ≤ b.strike.time := by
  induction es generalizing cs with
  | nil => exact .nil
  | cons e es ih =>
    obtain ⟨first, rest⟩ := List.pairwise_cons.mp sorted
    cases e with
    | cleanup now => exact ih rest _
    | hit now key q =>
      refine List.pairwise_cons.mpr ⟨?_, ih rest _⟩
      intro s mem
      obtain ⟨e, later, same⟩ := exists_event_of_mem mem
      rw [← same]
      exact first e later

theorem mem_of_mem_foldl_push {w ss : List Stroke} {s : Stroke} (mem : s ∈ ss.foldl push w) :
    s ∈ w ++ ss := by
  induction ss generalizing w with
  | nil => simpa using mem
  | cons a ss ih =>
    have inside := ih mem
    unfold push at inside
    split at inside <;> simp_all

variable {key : String} {cs : Counters} {c c' : Counter} {w : List Stroke} {s : Stroke}
  {es : List Event}

/-- A counter that stands has not lapsed before its window and its block have. -/
theorem Stands.live (stands : Stands w c) {now t : Nat} (le : now ≤ t) (inside : t < expiry w)
    (early : ∀ u, c.blockedUntil = some u → t < u) : c.isLapsed now = false := by
  rw [← Bool.not_eq_true, Counter.isLapsed_iff, Counter.lapse, stands.expires]
  cases block : c.blockedUntil with
  | none =>
    simp only [Option.getD_none]
    omega
  | some u =>
    have := early u block
    simp only [Option.getD_some]
    omega

/-- Where all hits are let through there is no block. -/
theorem unlapsed_of_admitted {earlier : List Stroke}
    (through : ∀ b ∈ earlier, b.strike.isAdmitted = true) (t : Nat) : Unlapsed earlier t := by
  intro b mem h told blocked
  have free := Strike.isBlocked_of_isAdmitted (through b mem)
  simp [Strike.isBlocked, told, blocked] at free

/-- A hit that comes before the window and every block of it has lapsed goes on with the window. -/
theorem fair_of_stands (ordered : cs.Ordered) (found : cs.get? key = some c) (stands : Stands w c)
    (sorted : es.Pairwise fun a b => a.time ≤ b.time) {i : Nat}
    (here : (onKey key (strokes es cs))[i]? = some s) (inside : s.strike.time < expiry w)
    (free : ∀ u, c.blockedUntil = some u → s.strike.time < u)
    (unlapsed : Unlapsed ((onKey key (strokes es cs)).take i) s.strike.time) :
    s.strike.opens = false ∧ Fair (w ++ (onKey key (strokes es cs)).take i) s := by
  induction es generalizing cs c w i with
  | nil => simp [strokes, onKey] at here
  | cons e es ih =>
    obtain ⟨first, rest⟩ := List.pairwise_cons.mp sorted
    have reached {ds : Counters} {t : Nat} (first : ∀ d ∈ es, t ≤ d.time)
        (mem : s ∈ onKey key (strokes es ds)) : t ≤ s.strike.time := by
      obtain ⟨d, later, same⟩ := exists_event_of_mem (List.mem_filter.mp mem).1
      rw [← same]
      exact first d later
    cases e with
    | cleanup t =>
      have le : t ≤ s.strike.time := reached first (List.mem_of_getElem? here)
      have kept : (cs.cleanup t).get? key = some c := by
        rw [get?_cleanup ordered, found]
        simp [Option.filter, stands.live le inside free]
      exact ih (ordered.cleanup t) kept stands rest here inside free unlapsed
    | hit t k q =>
      by_cases own : k = key
      · subst own
        rw [onKey_strokes_hit] at here unlapsed ⊢
        cases i with
        | zero =>
          obtain rfl := Option.some.inj here
          obtain ⟨stays, fair, -⟩ := stands.hit found (stands.live (Nat.le_refl _) inside free) q
          simpa using ⟨stays, fair⟩
        | succ i =>
          simp only [List.getElem?_cons_succ] at here
          simp only [List.take_succ_cons] at unlapsed ⊢
          have le : t ≤ s.strike.time := reached first (List.mem_of_getElem? here)
          have live := stands.live le inside free
          obtain ⟨-, -, c', found', stands', counts⟩ := stands.hit found live q
          obtain ⟨told, others⟩ := List.forall_mem_cons.mp unlapsed
          have free' : ∀ u, c'.blockedUntil = some u → s.strike.time < u := by
            intro u block
            obtain older | ⟨h, outcome, blocked, ends⟩ := counts.block_cases block
            · exact free u older
            · have early : s.strike.time < t + h.timeToUnblock := told h outcome blocked
              omega
          rw [← expiry_snoc stands.begun] at inside
          have later := ih (ordered.hit t k q) found' stands' rest here inside free' others
          rwa [List.append_assoc] at later
      · have same : (hit t k q cs).2.get? key = cs.get? key := get?_hit_of_ne own
        rw [onKey_strokes_hit_of_ne own] at here unlapsed ⊢
        exact ih (ordered.hit t k q) (same.trans found) stands rest here inside free unlapsed

/-- A window is without excess if its hits are under one limit and no more than that. -/
theorem within_of_length {limit : Nat} (one : ∀ s ∈ w, s.quota.limit = limit)
    (few : w.length ≤ limit) : Within w := by
  intro i s mem
  obtain ⟨inside, -⟩ := List.getElem?_eq_some_iff.mp mem
  rw [one s (List.mem_of_getElem? mem)]
  omega

/-- Behind a counter that stands and is not blocked the hits under one limit come to what is left of
it. -/
theorem foretold_of_stands (ordered : cs.Ordered) (found : cs.get? key = some c)
    (stands : Stands w c) (free : c.blockedUntil = none)
    (sorted : es.Pairwise fun a b => a.time ≤ b.time) {limit : Nat}
    (bounded : limit < Counter.maxHits) (few : w.length ≤ limit)
    (one : ∀ s ∈ w ++ onKey key (strokes es cs), s.quota.limit = limit) :
    Foretold w limit (onKey key (strokes es cs)) := by
  have unblocked (t : Nat) : ∀ u, c.blockedUntil = some u → t < u := by simp [free]
  have inOrder := (strokes_sorted sorted cs).filter (·.key == key)
  change (onKey key (strokes es cs)).Pairwise _ at inOrder
  generalize made : onKey key (strokes es cs) = next at one inOrder ⊢
  have fair {i : Nat} {s : Stroke} (here : next[i]? = some s) (inside : s.strike.time < expiry w)
      (earlier : Unlapsed (next.take i) s.strike.time) :
      s.strike.opens = false ∧ Fair (w ++ next.take i) s := by
    subst made
    exact fair_of_stands ordered found stands sorted here inside (unblocked _) earlier
  have length {i : Nat} {s : Stroke} (here : next[i]? = some s) :
      (w ++ next.take i).length = w.length + i := by
    obtain ⟨short, -⟩ := List.getElem?_eq_some_iff.mp here
    simp only [List.length_append, List.length_take]
    omega
  constructor
  · intro i
    -- None of the hits before this one is blocked, so its window goes on.
    induction i using Nat.strongRecOn with
    | ind i ih =>
      intro s here inside left
      have through : ∀ b ∈ next.take i, b.strike.isAdmitted = true := by
        intro b mem
        obtain ⟨j, at_j⟩ := List.mem_iff_getElem?.mp mem
        rw [List.getElem?_take, Option.ite_none_right_eq_some] at at_j
        obtain ⟨sooner, at_j⟩ := at_j
        have le : b.strike.time ≤ s.strike.time := by
          obtain ⟨short, rfl⟩ := List.getElem?_eq_some_iff.mp at_j
          obtain ⟨long, rfl⟩ := List.getElem?_eq_some_iff.mp here
          exact List.pairwise_iff_getElem.mp inOrder j i short long sooner
        exact ih j sooner b at_j (Nat.lt_of_le_of_lt le inside) (by omega)
      obtain ⟨stays, fair⟩ := fair here inside (unlapsed_of_admitted through _)
      apply fair.room
      · have same : ∀ a ∈ w ++ next.take i ++ [s], a.quota.limit = limit := by
          intro a mem
          rw [List.append_assoc, List.mem_append, List.mem_append, List.mem_singleton] at mem
          obtain mem | mem | rfl := mem
          · exact one a (List.mem_append_left _ mem)
          · exact one a (List.mem_append_right _ (List.mem_of_mem_take mem))
          · exact one a (List.mem_append_right _ (List.mem_of_getElem? here))
        apply within_of_length same
        rw [List.length_append, length here, List.length_singleton]
        omega
      · simp [stays]
  · intro i s here inside left earlier
    obtain ⟨stays, fair⟩ := fair here inside earlier
    have same : s.quota.limit = limit :=
      one s (List.mem_append_right w (List.mem_of_getElem? here))
    have refused : s.strike.isAdmitted = false := by
      apply fair.exceeding
      · rw [same, length here]
        omega
      · rw [same]
        exact bounded
    refine ⟨refused, fun fits => ?_⟩
    obtain ⟨h, told⟩ := fair.ends ⟨fun opens => by simp [stays] at opens, fits⟩
    simpa [Strike.isAdmitted, Strike.isBlocked, told] using refused

/-- A hit that is let through is the last of a window that has not ended, and leaves its counter
free. -/
theorem stands_of_free {now : Nat} {q : Quota} {h : Hit} {after : Counters} {v : List Stroke}
    (behind : Behind v now (cs.get? key)) (struck : hit now key q cs = (.ok h, after))
    (through : h.isBlocked = false) (long : 0 < q.window) :
    let s : Stroke := ⟨key, q, strike now key q cs⟩
    ∃ w, w ⊆ v ∧ push v s = w ++ [s] ∧ Fair w s ∧ now < expiry (w ++ [s]) ∧
      ∃ c, after.get? key = some c ∧ Stands (w ++ [s]) c ∧ c.blockedUntil = none := by
  intro s
  have outcome : s.strike.outcome = .ok h := congrArg Prod.fst struck
  obtain ⟨c, found, told⟩ := found_of_hit struck
  have free : c.blockedUntil = none := by
    rw [told] at through
    simpa [Counter.found] using through
  cases opens : Counter.isOpening now (cs.get? key) with
  | true =>
    have first : s.strike.opens = true := opens
    obtain ⟨fair, ⟨-, d, same, stands⟩ | ⟨-, late⟩⟩ := fair_of_opening opens q
    · rw [struck, found] at same
      obtain rfl := Option.some.inj same
      refine ⟨[], List.nil_subset v, by rw [push, if_pos first]; rfl, fair, ?_, c, found, stands, free⟩
      exact Nat.lt_add_of_pos_right long
    · simp [struck] at late
  | false =>
    cases behind with
    | opening h => simp [opens] at h
    | @standing d stored before =>
      have live : d.isLapsed now = false := by simpa [Counter.isOpening, stored] using opens
      obtain ⟨stays, fair, c', same, stands, counts⟩ := before.hit stored live q
      rw [struck, found] at same
      obtain rfl := Option.some.inj same
      change Counter.Counts now q d s.strike.outcome c at counts
      rw [outcome] at counts
      have pushed : push v s = v ++ [s] := by rw [push, stays, if_neg Bool.false_ne_true]
      refine ⟨v, List.Subset.refl v, pushed, fair, ?_, c, found, stands, free⟩
      rw [expiry_snoc before.begun, ← before.expires]
      exact counts.lt_expires free live

/-- What a hit that is let through says of the hits to come on its counter, if all are under one
limit and window: it is counted in full, and the rest of its limit is what is left to them. -/
theorem foretold_of_hit {fs : List Event} {now : Nat} {q : Quota} {h : Hit} {after : Counters}
    (sorted : (es ++ .hit now key q :: fs).Pairwise fun a b => a.time ≤ b.time)
    (one : ∀ s ∈ onKey key (strokes (es ++ .hit now key q :: fs) empty),
      s.quota.limit = q.limit)
    (bounded : q.limit < Counter.maxHits) (long : 0 < q.window)
    (struck : hit now key q (empty.run es) = (.ok h, after)) (through : h.isBlocked = false) :
    let w := lastWindow (onKey key (strokes (es ++ [.hit now key q]) empty))
    h.total = w.length ∧ w.length ≤ q.limit ∧ h.timeToExpire = expiry w - now ∧ now < expiry w ∧
      Foretold w q.limit (onKey key (strokes fs after)) := by
  intro w
  let s : Stroke := ⟨key, q, strike now key q (empty.run es)⟩
  obtain ⟨past, later, across⟩ := List.pairwise_append.mp sorted
  obtain ⟨-, later⟩ := List.pairwise_cons.mp later
  have upto : ∀ e ∈ es, e.time ≤ now := fun e mem => across e mem _ List.mem_cons_self
  obtain ⟨-, behind⟩ := behind_lastWindow past upto key
  obtain ⟨u, old, pushed, fair, ahead, c, found, stands, free⟩ :=
    stands_of_free behind struck through long
  have ordered : after.Ordered := by
    have next := (ordered_empty.run es).hit now key q
    rwa [struck] at next
  have all : onKey key (strokes (es ++ .hit now key q :: fs) empty) =
      onKey key (strokes es empty) ++ s :: onKey key (strokes fs after) := by
    rw [strokes_append, onKey_append, onKey_strokes_hit, struck]
  have window : w = u ++ [s] := by
    have here : onKey key (strokes (es ++ [.hit now key q]) empty) =
        onKey key (strokes es empty) ++ [s] := by
      rw [strokes_append, onKey_append, onKey_strokes_hit]
      rfl
    simp only [w, here, lastWindow, List.foldl_append]
    exact pushed
  have limits : ∀ t ∈ (u ++ [s]) ++ onKey key (strokes fs after), t.quota.limit = q.limit := by
    intro t mem
    apply one t
    rw [all]
    rw [List.append_assoc, List.mem_append] at mem
    obtain mem | mem := mem
    · exact List.mem_append_left _ (mem_of_mem_foldl_push (old mem))
    · exact List.mem_append_right _ mem
  obtain ⟨total, le, remaining⟩ := fair.counted h (congrArg Prod.fst struck) through
  change h.total ≤ q.limit at le
  have length : (u ++ [s]).length = u.length + 1 := List.length_append
  have counted : h.total = (u ++ [s]).length := by omega
  have few : (u ++ [s]).length ≤ q.limit := counted ▸ le
  rw [window]
  exact ⟨counted, few, remaining, ahead,
    foretold_of_stands ordered found stands free later bounded few limits⟩

end Counters

end Turnstile
