import Mathlib.Data.List.Chain
import Turnstile.Proofs.Throttle.Counter

namespace Turnstile

namespace Quota

/-- The counter of a window by the times of its hits: the hit that exceeds the limit blocks it, and
hits are not counted from then on. -/
def counter (q : Quota) (start : Nat) (times : List Nat) : Counter where
  hits := min times.length (q.limit + 1)
  expires := start + q.window
  blockedUntil := times[q.limit]?.map fun t =>
    match q.block with
    | some d => t + d
    | none => start + q.window

/-- The least time between the starts of two windows. -/
def spacing (q : Quota) : Nat :=
  match q.block with
  | some d => min q.window d
  | none => q.window

theorem counter_nil (q : Quota) (start : Nat) : q.counter start [] = Counter.opened start q := by
  simp [counter, Counter.opened]

theorem blockedUntil_counter {q : Quota} (start : Nat) {times : List Nat}
    (h : times.length ≤ q.limit) : (q.counter start times).blockedUntil = none := by
  simp [counter, List.getElem?_eq_none h]

theorem blockEnd_counter {q : Quota} {start now : Nat} {times : List Nat} (fits : q.Fits now) :
    (q.counter start times).blockEnd now q =
      .ok (match q.block with
        | some d => now + d
        | none => start + q.window) := by
  cases h : q.block with
  | none => simp [Counter.blockEnd, h, counter]
  | some d => simp [Counter.blockEnd, h, Clock.after_eq_ok (fits.2 d h)]

/-- A hit judged by the number of hits before it in its window. -/
theorem count_counter {q : Quota} {now : Nat} (start : Nat) (times : List Nat)
    (bounded : q.limit < Counter.maxHits) (fits : q.Fits now) :
    ∃ h, (q.counter start times).count now q = (.ok h, q.counter start (times ++ [now])) ∧
      h.isBlocked = decide (q.limit ≤ times.length) := by
  rcases Nat.lt_trichotomy times.length q.limit with under | full | past
  · have free := blockedUntil_counter start (Nat.le_of_lt under)
    have hits : (q.counter start times).hits = times.length := by simp [counter]; omega
    have next : q.counter start (times ++ [now]) =
        { q.counter start times with hits := (q.counter start times).hits + 1 } := by
      have free' : (q.counter start (times ++ [now])).blockedUntil = none :=
        blockedUntil_counter start (by simp; omega)
      simp only [counter] at free free' hits ⊢
      simp only [free, free', List.length_append, List.length_singleton]
      congr 1
      omega
    rw [Counter.count_of_room free (by omega) (by omega), next]
    exact ⟨_, rfl, by simp [Counter.found, free, under]⟩
  · have free := blockedUntil_counter start (Nat.le_of_eq full)
    have hits : (q.counter start times).hits = q.limit := by simp [counter, full]
    rw [Counter.count_of_full free (by omega) (by omega) (blockEnd_counter fits)]
    refine ⟨_, Prod.ext rfl ?_, by simp [Counter.found, full]⟩
    simp [counter, ← full]
  · have later : (times ++ [now])[q.limit]? = times[q.limit]? := List.getElem?_append_left past
    have next : q.counter start (times ++ [now]) = q.counter start times := by
      simp only [counter, later, List.length_append, List.length_singleton]
      congr 1
      omega
    obtain ⟨u, hu⟩ : ∃ u, (q.counter start times).blockedUntil = some u := by
      simp [counter, List.getElem?_eq_getElem past]
    rw [Counter.count_of_blocked hu, next]
    exact ⟨_, rfl, by simp [Counter.found, hu, Nat.le_of_lt past]⟩

/-- A window does not lapse before the next one may start. -/
theorem spacing_le_lapse {q : Quota} {start : Nat} {times : List Nat}
    (h : ∀ t ∈ times, start ≤ t) : start + q.spacing ≤ (q.counter start times).lapse := by
  simp only [Counter.lapse, counter, spacing]
  cases ht : times[q.limit]? with
  | none =>
    cases q.block with
    | none => exact Nat.le_refl _
    | some d =>
      show start + min q.window d ≤ start + q.window
      omega
  | some t =>
    have after := h t (List.mem_of_getElem? ht)
    cases q.block with
    | none => exact Nat.le_refl _
    | some d =>
      show start + min q.window d ≤ t + d
      omega

theorem lapse_counter_of_no_block {q : Quota} (h : q.block = none) (start : Nat)
    (times : List Nat) : (q.counter start times).lapse = start + q.window := by
  simp only [Counter.lapse, counter, h]
  cases times[q.limit]? <;> rfl

end Quota

namespace Counters

/-- The windows of a history, of which the first has begun with the hits `w`. -/
def windowsFrom (w : List Strike) : List Strike → List (List Strike)
  | [] => [w]
  | s :: later => if s.opens then w :: windowsFrom [s] later else windowsFrom (w ++ [s]) later

/-- A history cut into windows: each hit that finds no counter or a lapsed one starts the next. -/
def windows : List Strike → List (List Strike)
  | [] => []
  | s :: later => windowsFrom [s] later

def times (w : List Strike) : List Nat := w.map Strike.time

def start (w : List Strike) : Nat := (times w).headD 0

/-- The hit is admitted if fewer than the limit came before it in its window, and refused if not. -/
def Judged (q : Quota) (before : Nat) (s : Strike) : Prop :=
  s.isAdmitted = decide (before < q.limit) ∧ s.isBlocked = decide (q.limit ≤ before)

/-- The first hits of the window, as many as the limit or all of them, are admitted, and all later
ones are refused. -/
def FilledInOrder (q : Quota) (w : List Strike) : Prop := ∀ i s, w[i]? = some s → Judged q i s

/-- The hits that may follow on the window `w`, which is empty before the first hit. -/
inductive Follow (q : Quota) : List Strike → List Strike → Prop
  | done (w : List Strike) : Follow q w []
  | inside {w later : List Strike} {s : Strike} (begun : w ≠ []) (stays : s.opens = false)
      (live : s.time < (q.counter (start w) (times w)).lapse) (judged : Judged q w.length s)
      (next : Follow q (w ++ [s]) later) : Follow q w (s :: later)
  | opening {w later : List Strike} {s : Strike} (opens : s.opens = true)
      (lapsed : w ≠ [] → (q.counter (start w) (times w)).lapse ≤ s.time) (judged : Judged q 0 s)
      (next : Follow q [s] later) : Follow q w (s :: later)

/-- Every hit on the key has this quota, whose times can be added to the clock then. -/
def Uniform (key : String) (q : Quota) (es : List Event) : Prop :=
  ∀ now r, .hit now key r ∈ es → r = q ∧ q.Fits now

/-- What is stored under a key behind the window `w`: its counter, or nothing if it has lapsed. -/
def Tracks (q : Quota) (w : List Strike) (now : Nat) (o : Option Counter) : Prop :=
  (w ≠ [] ∧ o = some (q.counter (start w) (times w))) ∨
  (o = none ∧ (w ≠ [] → (q.counter (start w) (times w)).lapse ≤ now))

theorem times_snoc (w : List Strike) (s : Strike) : times (w ++ [s]) = times w ++ [s.time] := by
  simp [times]

theorem start_snoc {w : List Strike} (begun : w ≠ []) (s : Strike) :
    start (w ++ [s]) = start w := by
  cases w with
  | nil => exact absurd rfl begun
  | cons a w => rfl

theorem judged_of_hit {q : Quota} {before : Nat} {s : Strike} {h : Hit}
    (outcome : s.outcome = .ok h) (blocked : h.isBlocked = decide (q.limit ≤ before)) :
    Judged q before s := by
  simp only [Judged, Strike.isAdmitted, Strike.isBlocked, outcome, blocked, and_true]
  simp only [← decide_not, Nat.not_le]

variable {key : String} {q : Quota} {cs : Counters} {now : Nat}

theorem strike_of_opening (bounded : q.limit < Counter.maxHits) (fits : q.Fits now)
    (opening : Counter.isOpening now (cs.get? key) = true) :
    Judged q 0 (strike now key q cs) ∧
      (hit now key q cs).2.get? key = some (q.counter now [now]) := by
  have current := Counter.current_of_opening opening fits.1
  rw [← Quota.counter_nil] at current
  obtain ⟨h, counted, blocked⟩ := Quota.count_counter now [] bounded fits
  constructor
  · apply judged_of_hit (h := h) _ blocked
    simp only [strike, hit_of_current current, counted]
  · rw [get?_hit_self current, counted]
    rfl

theorem strike_of_live {start : Nat} {times : List Nat} (bounded : q.limit < Counter.maxHits)
    (fits : q.Fits now) (tracked : cs.get? key = some (q.counter start times))
    (live : (q.counter start times).isLapsed now = false) :
    Judged q times.length (strike now key q cs) ∧
      (hit now key q cs).2.get? key = some (q.counter start (times ++ [now])) := by
  have current := Counter.current_of_live (q := q) live
  rw [← tracked] at current
  obtain ⟨h, counted, blocked⟩ := Quota.count_counter start times bounded fits
  constructor
  · apply judged_of_hit (h := h) _ blocked
    simp only [strike, hit_of_current current, counted]
  · rw [get?_hit_self current, counted]

theorem Tracks.later {w : List Strike} {o : Option Counter} {later : Nat} (h : Tracks q w now o)
    (le : now ≤ later) : Tracks q w later o := by
  rcases h with h | ⟨absent, lapsed⟩
  · exact .inl h
  · exact .inr ⟨absent, fun begun => Nat.le_trans (lapsed begun) le⟩

theorem Tracks.cleanup {w : List Strike} (ordered : cs.Ordered)
    (h : Tracks q w now (cs.get? key)) : Tracks q w now ((cs.cleanup now).get? key) := by
  rw [get?_cleanup ordered]
  rcases h with ⟨begun, tracked⟩ | ⟨absent, lapsed⟩
  · cases dead : (q.counter (start w) (times w)).isLapsed now with
    | false => exact .inl ⟨begun, by simp [tracked, dead]⟩
    | true =>
      exact .inr ⟨by simp [tracked, dead], fun _ => Counter.isLapsed_iff.mp dead⟩
  · exact .inr ⟨by simp [absent], lapsed⟩

/-- A hit either goes on with the window or starts the next one. -/
theorem Tracks.hit {w : List Strike} (h : Tracks q w now (cs.get? key))
    (bounded : q.limit < Counter.maxHits) (fits : q.Fits now) :
    let s := strike now key q cs
    let after := (Counters.hit now key q cs).2.get? key
    (w ≠ [] ∧ s.opens = false ∧ now < (q.counter (start w) (times w)).lapse ∧
      Judged q w.length s ∧ Tracks q (w ++ [s]) now after) ∨
    (s.opens = true ∧ (w ≠ [] → (q.counter (start w) (times w)).lapse ≤ now) ∧
      Judged q 0 s ∧ Tracks q [s] now after) := by
  intro s after
  cases opens : Counter.isOpening now (cs.get? key) with
  | true =>
    obtain ⟨judged, stored⟩ := strike_of_opening bounded fits opens
    refine .inr ⟨opens, ?_, judged, .inl ⟨by simp, stored⟩⟩
    intro begun
    rcases h with ⟨_, tracked⟩ | ⟨_, lapsed⟩
    · exact Counter.isLapsed_iff.mp (by simpa [Counter.isOpening, tracked] using opens)
    · exact lapsed begun
  | false =>
    rcases h with ⟨begun, tracked⟩ | ⟨absent, _⟩
    · have live : (q.counter (start w) (times w)).isLapsed now = false := by
        simpa [Counter.isOpening, tracked] using opens
      obtain ⟨judged, stored⟩ := strike_of_live bounded fits tracked live
      refine .inl ⟨begun, opens, ?_, by simpa [times] using judged, .inl ⟨by simp, ?_⟩⟩
      · apply Nat.lt_of_not_le
        intro lapsed
        simp [Counter.isLapsed_iff.mpr lapsed] at live
      · rw [start_snoc begun, times_snoc]
        exact stored
    · simp [Counter.isOpening, absent] at opens

/-- The history of a key goes on from its window as if nothing else happened. -/
theorem follow_history {es : List Event} {w : List Strike} (bounded : q.limit < Counter.maxHits)
    (ordered : cs.Ordered) (tracks : Tracks q w now (cs.get? key))
    (sorted : es.Pairwise fun a b => a.time ≤ b.time) (since : ∀ e ∈ es, now ≤ e.time)
    (uniform : Uniform key q es) : Follow q w (history key es cs) := by
  induction es generalizing cs w now with
  | nil => exact .done w
  | cons e es ih =>
    obtain ⟨first, rest⟩ := List.pairwise_cons.mp sorted
    have tracks := tracks.later (since e (by simp))
    have uniform' : Uniform key q es := fun t r h => uniform t r (List.mem_cons_of_mem _ h)
    cases e with
    | cleanup t => exact ih (ordered.cleanup t) (tracks.cleanup ordered) rest first uniform'
    | hit t k r =>
      simp only [history]
      split
      · next same =>
        subst same
        obtain ⟨rfl, fits⟩ := uniform t r (by simp)
        rcases tracks.hit bounded fits with
          ⟨begun, stays, live, judged, tracks⟩ | ⟨opens, lapsed, judged, tracks⟩
        · exact .inside begun stays live judged (ih (ordered.hit t k r) tracks rest first uniform')
        · exact .opening opens lapsed judged (ih (ordered.hit t k r) tracks rest first uniform')
      · next other =>
        have kept : ((Event.hit t k r).after cs).get? key = cs.get? key := get?_hit_of_ne other
        exact ih (ordered.hit t k r) (kept ▸ tracks) rest first uniform'

theorem filled_windowsFrom {w later : List Strike} (h : Follow q w later)
    (filled : FilledInOrder q w) : ∀ v ∈ windowsFrom w later, FilledInOrder q v := by
  induction h with
  | done w => simpa [windowsFrom] using filled
  | @inside w _ s _ stays _ judged _ ih =>
    simp only [windowsFrom, stays, Bool.false_eq_true, ↓reduceIte]
    apply ih
    intro i t ht
    rw [List.getElem?_append] at ht
    split at ht
    · exact filled i t ht
    · next past =>
      obtain ⟨at0, rfl⟩ : i - w.length = 0 ∧ s = t := by
        simpa [List.getElem?_singleton] using ht
      rwa [show i = w.length by omega]
  | @opening w _ s opens _ judged _ ih =>
    simp only [windowsFrom, opens, ↓reduceIte, List.mem_cons]
    rintro v (rfl | hv)
    · exact filled
    · apply ih _ v hv
      intro i t ht
      obtain ⟨rfl, rfl⟩ : i = 0 ∧ s = t := by simpa [List.getElem?_singleton] using ht
      exact judged

theorem begun_windowsFrom {w : List Strike} (begun : w ≠ []) (later : List Strike) :
    ∀ v ∈ windowsFrom w later, v ≠ [] := by
  induction later generalizing w with
  | nil => simpa [windowsFrom] using begun
  | cons s later ih =>
    simp only [windowsFrom]
    split
    · simpa using ⟨begun, ih (w := [s]) (by simp)⟩
    · exact ih (by simp)

theorem flatten_windowsFrom (w later : List Strike) :
    (windowsFrom w later).flatten = w ++ later := by
  induction later generalizing w with
  | nil => simp [windowsFrom]
  | cons s later ih => by_cases opens : s.opens <;> simp [windowsFrom, opens, ih]

theorem flatten_windows (ss : List Strike) : (windows ss).flatten = ss := by
  cases ss with
  | nil => rfl
  | cons s later => exact flatten_windowsFrom [s] later

/-- The first window keeps its start. -/
theorem head_windowsFrom {w : List Strike} (begun : w ≠ []) (later : List Strike) :
    ∃ v vs, windowsFrom w later = v :: vs ∧ start v = start w := by
  induction later generalizing w with
  | nil => exact ⟨w, [], rfl, rfl⟩
  | cons s later ih =>
    simp only [windowsFrom]
    split
    · exact ⟨w, _, rfl, rfl⟩
    · obtain ⟨v, vs, eq, same⟩ := ih (w := w ++ [s]) (by simp)
      exact ⟨v, vs, eq, same.trans (start_snoc begun s)⟩

theorem start_le_time {w later : List Strike} (begun : w ≠ [])
    (sorted : (times (w ++ later)).Pairwise (· ≤ ·)) : ∀ s ∈ w ++ later, start w ≤ s.time := by
  cases w with
  | nil => exact absurd rfl begun
  | cons a w =>
    obtain ⟨first, _⟩ := List.pairwise_cons.mp sorted
    intro s hs
    rcases List.mem_cons.mp hs with rfl | hs
    · exact Nat.le_refl _
    · exact first s.time (List.mem_map_of_mem hs)

theorem spaced_windowsFrom {w later : List Strike} (h : Follow q w later) (begun : w ≠ [])
    (sorted : (times (w ++ later)).Pairwise (· ≤ ·)) :
    (windowsFrom w later).IsChain fun u v => start u + q.spacing ≤ start v := by
  induction h with
  | done w => simp [windowsFrom]
  | @inside w _ s _ stays _ _ _ ih =>
    simp only [windowsFrom, stays, Bool.false_eq_true, ↓reduceIte]
    exact ih (by simp) (by simpa [times] using sorted)
  | @opening w later s opens lapsed _ _ ih =>
    simp only [windowsFrom, opens, ↓reduceIte]
    have after : (times ([s] ++ later)).Pairwise (· ≤ ·) :=
      List.Pairwise.sublist ((List.sublist_append_right w _).map _) sorted
    obtain ⟨v, vs, eq, same⟩ := head_windowsFrom (w := [s]) (by simp) later
    have chain := ih (by simp) after
    rw [eq] at chain ⊢
    refine List.isChain_cons_cons.mpr ⟨?_, chain⟩
    have inside : ∀ t ∈ times w, start w ≤ t := by
      intro t ht
      obtain ⟨u, hu, rfl⟩ := List.mem_map.mp ht
      exact start_le_time begun sorted u (List.mem_append_left _ hu)
    have := Quota.spacing_le_lapse (q := q) inside
    have := lapsed begun
    rw [same]
    exact Nat.le_trans ‹_› ‹_›

/-- Times cut into windows of one length, of which the first has begun with the times `w`. -/
def cutFrom (length start : Nat) (w : List Nat) : List Nat → List (List Nat)
  | [] => [w]
  | t :: later =>
    if start + length ≤ t then w :: cutFrom length t [t] later
    else cutFrom length start (w ++ [t]) later

/-- Times cut into windows of one length: the first time that a window does not reach starts the
next. -/
def cut (length : Nat) : List Nat → List (List Nat)
  | [] => []
  | t :: later => cutFrom length t [t] later

theorem times_windowsFrom {w later : List Strike} (h : Follow q w later) (begun : w ≠ [])
    (unblocked : q.block = none) :
    (windowsFrom w later).map times = cutFrom q.window (start w) (times w) (times later) := by
  induction h with
  | done w => rfl
  | @inside w later s _ stays live _ _ ih =>
    rw [Quota.lapse_counter_of_no_block unblocked] at live
    simp only [windowsFrom, stays, Bool.false_eq_true, ↓reduceIte]
    rw [ih (by simp), start_snoc begun, times_snoc]
    simp only [times, List.map_cons, cutFrom, if_neg (Nat.not_le.mpr live)]
  | @opening w later s opens lapsed _ _ ih =>
    have reached := lapsed begun
    rw [Quota.lapse_counter_of_no_block unblocked] at reached
    simp only [windowsFrom, opens, ↓reduceIte, List.map_cons]
    rw [ih (by simp)]
    show _ = cutFrom q.window (start w) (times w) (s.time :: times later)
    rw [cutFrom, if_pos reached]
    rfl

/-- The hits of a history that are admitted from an instant on and before another. -/
def admittedIn (a b : Nat) (ss : List Strike) : Nat :=
  ss.countP fun s => s.isAdmitted && (decide (a ≤ s.time) && decide (s.time < b))

theorem admittedIn_append (a b : Nat) (v w : List Strike) :
    admittedIn a b (v ++ w) = admittedIn a b v + admittedIn a b w :=
  List.countP_append

theorem admittedIn_eq_zero {a b : Nat} {ss : List Strike}
    (outside : ∀ s ∈ ss, s.isAdmitted = true → s.time < a ∨ b ≤ s.time) :
    admittedIn a b ss = 0 := by
  apply List.countP_eq_zero.mpr
  intro s hs
  simp only [Bool.and_eq_true, decide_eq_true_eq, not_and]
  intro admitted
  have := outside s hs admitted
  omega

theorem FilledInOrder.admittedIn_le {w : List Strike} (filled : FilledInOrder q w) (a b : Nat) :
    admittedIn a b w ≤ q.limit := by
  rw [← List.take_append_drop q.limit w, admittedIn_append]
  have refused : admittedIn a b (w.drop q.limit) = 0 := by
    apply admittedIn_eq_zero
    intro s hs admitted
    obtain ⟨i, hi⟩ := List.mem_iff_getElem?.mp hs
    rw [List.getElem?_drop] at hi
    have early := of_decide_eq_true ((filled _ _ hi).1.symm.trans admitted)
    omega
  have few : admittedIn a b (w.take q.limit) ≤ (w.take q.limit).length := List.countP_le_length
  rw [List.length_take] at few
  omega

/-- From the start of a window on, an interval no longer than the spacing meets no other window. -/
theorem admittedIn_le_of_start_ge {w : List Strike} {ws : List (List Strike)} {a len : Nat}
    (filled : FilledInOrder q w) (begun : ∀ v ∈ w :: ws, v ≠ [])
    (spaced : (w :: ws).IsChain fun u v => start u + q.spacing ≤ start v)
    (sorted : (times (w :: ws).flatten).Pairwise (· ≤ ·)) (short : len ≤ q.spacing)
    (reached : a ≤ start w) : admittedIn a (a + len) (w :: ws).flatten ≤ q.limit := by
  rw [List.flatten_cons, admittedIn_append]
  have beyond : admittedIn a (a + len) ws.flatten = 0 := by
    apply admittedIn_eq_zero
    intro s hs _
    cases ws with
    | nil => simp at hs
    | cons v vs =>
      have apart := (List.isChain_cons_cons.mp spaced).1
      have tail : (times (v ++ vs.flatten)).Pairwise (· ≤ ·) :=
        List.Pairwise.sublist ((List.sublist_append_right w _).map _) sorted
      have := start_le_time (begun v (by simp)) tail s hs
      omega
  have := filled.admittedIn_le a (a + len)
  omega

/-- An interval no longer than the spacing meets two windows at most. -/
theorem admittedIn_le_two {ws : List (List Strike)} {a len : Nat}
    (filled : ∀ w ∈ ws, FilledInOrder q w) (begun : ∀ w ∈ ws, w ≠ [])
    (spaced : ws.IsChain fun u v => start u + q.spacing ≤ start v)
    (sorted : (times ws.flatten).Pairwise (· ≤ ·)) (short : len ≤ q.spacing) :
    admittedIn a (a + len) ws.flatten ≤ 2 * q.limit := by
  induction ws with
  | nil => simp [admittedIn]
  | cons w ws ih =>
    have here := filled w (by simp)
    have tail : (times ws.flatten).Pairwise (· ≤ ·) := by
      rw [List.flatten_cons, times, List.map_append] at sorted
      exact (List.pairwise_append.mp sorted).2.1
    cases ws with
    | nil =>
      have := here.admittedIn_le a (a + len)
      simp only [List.flatten_cons, List.flatten_nil, List.append_nil]
      omega
    | cons v vs =>
      have filled' : ∀ u ∈ v :: vs, FilledInOrder q u := fun u hu => filled u (by simp [hu])
      have begun' : ∀ u ∈ v :: vs, u ≠ [] := fun u hu => begun u (by simp [hu])
      have spaced' := (List.isChain_cons_cons.mp spaced).2
      rw [List.flatten_cons, admittedIn_append]
      by_cases reached : a ≤ start v
      · have := here.admittedIn_le a (a + len)
        have := admittedIn_le_of_start_ge (filled' v (by simp)) begun' spaced' tail short reached
        omega
      · have gone : admittedIn a (a + len) w = 0 := by
          apply admittedIn_eq_zero
          intro s hs _
          cases v with
          | nil => exact absurd rfl (begun' [] (by simp))
          | cons c v =>
            rw [List.flatten_cons, times, List.map_append, List.pairwise_append] at sorted
            have : s.time ≤ c.time := sorted.2.2 _ (List.mem_map_of_mem hs) _ (by simp)
            exact .inl (Nat.lt_of_le_of_lt this (Nat.lt_of_not_le reached))
        have := ih filled' begun' spaced' tail
        omega

/-- Hits on one key under one quota, whatever else happens between them. A window admits its first
hits up to the limit and refuses the others; windows start at least the spacing apart, without a
block just as the times and the length of a window say; and no interval as long as the spacing has
more admitted hits than two windows. -/
theorem hits_admitted_by_window {key : String} {q : Quota} {es : List Event}
    (bounded : q.limit < Counter.maxHits) (sorted : es.Pairwise fun a b => a.time ≤ b.time)
    (uniform : Uniform key q es) :
    let strikes := history key es empty
    (∀ w ∈ windows strikes, w ≠ [] ∧ FilledInOrder q w) ∧
    ((windows strikes).IsChain fun v w => start v + q.spacing ≤ start w) ∧
    (q.block = none →
      (windows strikes).map times = cut q.window (es.filterMap (Event.hitTime? key))) ∧
    ∀ a len, len ≤ q.spacing → admittedIn a (a + len) strikes ≤ 2 * q.limit := by
  intro strikes
  have since : ∀ e ∈ es, 0 ≤ e.time := fun e _ => Nat.zero_le e.time
  have follow : Follow q [] strikes :=
    follow_history bounded ordered_empty (.inr ⟨rfl, fun h => absurd rfl h⟩) sorted since uniform
  have inOrder : (times strikes).Pairwise (· ≤ ·) := history_sorted sorted
  have whole : (windows strikes).flatten = strikes := flatten_windows strikes
  have timed : times strikes = es.filterMap (Event.hitTime? key) := history_times key es empty
  rw [← timed]
  clear_value strikes
  cases follow with
  | done => simp [windows, cut, times, admittedIn]
  | inside begun => exact absurd rfl begun
  | @opening _ later s _ _ judged next =>
    have alone : FilledInOrder q [s] := by
      intro i t ht
      obtain ⟨rfl, rfl⟩ : i = 0 ∧ s = t := by simpa [List.getElem?_singleton] using ht
      exact judged
    have filled := filled_windowsFrom next alone
    have begun := begun_windowsFrom (w := [s]) (by simp) later
    have spaced := spaced_windowsFrom next (by simp) inOrder
    refine ⟨fun w hw => ⟨begun w hw, filled w hw⟩, spaced, ?_, ?_⟩
    · intro unblocked
      exact times_windowsFrom next (by simp) unblocked
    · intro a len short
      rw [← whole]
      exact admittedIn_le_two filled begun spaced (by rwa [whole]) short

/-- A block that ends before its window, a hit on another key, and a removal as the block ends. -/
theorem hits_admitted_by_two_windows :
    let q : Quota := ⟨2, 100, some 30⟩
    let es : List Event := [.hit 0 "a" q, .hit 5 "b" ⟨0, 7, none⟩, .hit 10 "a" q, .hit 20 "a" q,
      .hit 40 "a" q, .cleanup 50, .hit 50 "a" q]
    let strikes := history "a" es empty
    (q.limit < Counter.maxHits ∧ (es.Pairwise fun a b => a.time ≤ b.time) ∧ Uniform "a" q es) ∧
    (windows strikes).map times = [[0, 10, 20, 40], [50]] ∧
    (∀ w ∈ windows strikes, w ≠ [] ∧ FilledInOrder q w) ∧
    admittedIn 10 40 strikes ≤ 4 := by
  intro q es strikes
  have bounded : q.limit < Counter.maxHits := by decide
  have sorted : es.Pairwise fun a b => a.time ≤ b.time := by decide
  have uniform : Uniform "a" q es := by
    intro now r h
    have fits : ∀ t ≤ 50, q.Fits t := by
      intro t ht
      have far : 1000 < Clock.horizon := by decide
      simp only [Quota.Fits, q, Option.mem_some_iff, forall_eq']
      exact ⟨by omega, by omega⟩
    simp only [es, List.mem_cons, List.not_mem_nil, Event.hit.injEq, or_false, reduceCtorEq,
      false_or] at h
    rcases h with ⟨rfl, _, rfl⟩ | ⟨_, h, _⟩ | ⟨rfl, _, rfl⟩ | ⟨rfl, _, rfl⟩ | ⟨rfl, _, rfl⟩ |
      ⟨rfl, _, rfl⟩
    · exact ⟨rfl, fits 0 (by decide)⟩
    · exact absurd h (by decide)
    · exact ⟨rfl, fits 10 (by decide)⟩
    · exact ⟨rfl, fits 20 (by decide)⟩
    · exact ⟨rfl, fits 40 (by decide)⟩
    · exact ⟨rfl, fits 50 (by decide)⟩
  obtain ⟨filled, _, _, crowd⟩ := hits_admitted_by_window bounded sorted uniform
  exact ⟨⟨bounded, sorted, uniform⟩, by decide, filled, crowd 10 30 (by decide)⟩

end Counters

end Turnstile
