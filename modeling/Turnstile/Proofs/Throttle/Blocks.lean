import Turnstile.Proofs.Throttle.Attempts

/-!
The blocks of counters. A counter stays as its block has left it until the block lapses, whatever is
hit or removed in the meantime; the hit after that starts a window. A refused request is told to
come again after whole seconds, which are counted from the whole milliseconds of the block:
`retry_after_suffices_iff` says for which blocks they suffice.
-/

namespace Turnstile

namespace Clock

/-- The whole seconds of a duration reach its end, except where all that the last of them has is a
part of a millisecond. -/
theorem le_wholeSeconds_iff (d : Nat) :
    d ≤ wholeSeconds d * second ↔ d % second = 0 ∨ millisecond ≤ d % second := by
  unfold wholeSeconds second millisecond
  omega

theorem lt_wholeSeconds_add (d : Nat) : d < wholeSeconds d * second + millisecond := by
  unfold wholeSeconds second millisecond
  omega

end Clock

namespace Counters

variable {cs : Counters} {key : String} {c : Counter} {now u : Nat} {es : List Event}

def run (es : List Event) (cs : Counters) : Counters := es.foldl (fun cs e => e.after cs) cs

theorem Ordered.run (h : cs.Ordered) (es : List Event) : (cs.run es).Ordered := by
  induction es generalizing cs with
  | nil => exact h
  | cons e es ih => exact ih (h.after e)

/-- A hit that is refused leaves its counter blocked for the time that it tells. -/
theorem block_of_hit {q : Quota} {after : Counters} {h : Hit}
    (struck : hit now key q cs = (.ok h, after)) (blocked : h.isBlocked = true) :
    ∃ c u, after.get? key = some c ∧ c.blockedUntil = some u ∧ h.timeToUnblock = u - now := by
  obtain ⟨c, found, rfl⟩ := found_of_hit struck
  obtain ⟨u, block⟩ := Option.isSome_iff_exists.mp blocked
  exact ⟨c, u, found, block, by simp [Counter.found, block]⟩

/-- The counter is there, or it has lapsed and been removed. -/
def Rests (key : String) (c : Counter) (now : Nat) (cs : Counters) : Prop :=
  cs.get? key = some c ∨ cs.get? key = none ∧ c.isLapsed now = true

theorem Rests.later {after : Nat} (h : cs.Rests key c now) (le : now ≤ after) :
    cs.Rests key c after := by
  obtain found | ⟨gone, lapsed⟩ := h
  · exact .inl found
  · rw [Counter.isLapsed_iff] at lapsed
    exact .inr ⟨gone, Counter.isLapsed_iff.mpr (Nat.le_trans lapsed le)⟩

theorem Rests.isOpening (h : cs.Rests key c now) (lapsed : c.isLapsed now = true) :
    Counter.isOpening now (cs.get? key) = true := by
  obtain found | ⟨gone, -⟩ := h
  · rw [found]
    exact lapsed
  · rw [gone]
    rfl

section Blocked

variable (block : c.blockedUntil = some u)
include block

theorem isLapsed_iff_of_blocked : c.isLapsed now = true ↔ u ≤ now := by
  simp [Counter.isLapsed, block]

/-- A blocked counter tells a hit how long that will last, and is left as it is. -/
theorem hit_of_blocked (found : cs.get? key = some c) (early : now < u) (q : Quota) :
    (hit now key q cs).1 = .ok (c.found now) ∧ (hit now key q cs).2.get? key = some c := by
  have live : c.isLapsed now = false := by
    rw [← Bool.not_eq_true, isLapsed_iff_of_blocked block]
    exact Nat.not_le.mpr early
  have current : Counter.current now q (cs.get? key) = .ok c := by
    rw [found, Counter.current_of_live live]
  have kept := get?_hit_self current
  rw [hit_of_current current]
  rw [hit_of_current current, Counter.count_of_blocked block] at kept
  rw [Counter.count_of_blocked block]
  exact ⟨rfl, kept⟩

/-- An event during the block, or anywhere but on the counter, lets it rest. -/
theorem Rests.after (h : cs.Rests key c now) (ordered : cs.Ordered) {e : Event}
    (le : now ≤ e.time) (early : ∀ t, e.hitTime? key = some t → t < u) :
    (e.after cs).Rests key c e.time := by
  have h := h.later le
  cases e with
  | hit t k q =>
    by_cases own : k = key
    · subst own
      have soon : t < u := early t (by simp [Event.hitTime?])
      obtain found | ⟨-, lapsed⟩ := h
      · exact .inl (hit_of_blocked block found soon q).2
      · exact absurd ((isLapsed_iff_of_blocked block).mp lapsed) (Nat.not_le.mpr soon)
    · have same : (hit t k q cs).2.get? key = cs.get? key := get?_hit_of_ne own
      unfold Rests at h ⊢
      rw [← same] at h
      exact h
  | cleanup t =>
    have kept := get?_cleanup ordered t key
    obtain found | ⟨gone, lapsed⟩ := h
    · rw [found] at kept
      cases lapsed : c.isLapsed t with
      | true => exact .inr ⟨kept.trans (by simp [Option.filter, lapsed]), lapsed⟩
      | false => exact .inl (kept.trans (by simp [Option.filter, lapsed]))
    · rw [gone] at kept
      exact .inr ⟨kept, lapsed⟩

/-- A whole run lets the counter rest if nothing hits it once its block has lapsed. -/
theorem Rests.run (h : cs.Rests key c now) (ordered : cs.Ordered)
    (sorted : es.Pairwise fun a b => a.time ≤ b.time) (since : ∀ e ∈ es, now ≤ e.time)
    (early : ∀ t ∈ es.filterMap (Event.hitTime? key), t < u) {last : Nat} (le : now ≤ last)
    (past : ∀ e ∈ es, e.time ≤ last) : (cs.run es).Rests key c last := by
  induction es generalizing cs now with
  | nil => exact h.later le
  | cons e es ih =>
    obtain ⟨first, rest⟩ := List.pairwise_cons.mp sorted
    obtain ⟨reached, -⟩ := List.forall_mem_cons.mp since
    obtain ⟨passed, past⟩ := List.forall_mem_cons.mp past
    have here : ∀ t, e.hitTime? key = some t → t < u := fun t struck =>
      early t (List.mem_filterMap.mpr ⟨e, List.mem_cons_self, struck⟩)
    have others : ∀ t ∈ es.filterMap (Event.hitTime? key), t < u := by
      intro t mem
      obtain ⟨d, inside, struck⟩ := List.mem_filterMap.mp mem
      exact early t (List.mem_filterMap.mpr ⟨d, List.mem_cons_of_mem _ inside, struck⟩)
    exact ih (h.after block ordered reached here) (ordered.after e) rest first others passed past

end Blocked

/-- A hit on the key is let through, and has an outcome if its window can be added to the clock. -/
def Admits (now : Nat) (key : String) (q : Quota) (cs : Counters) : Prop :=
  (∀ h, (hit now key q cs).1 = .ok h → h.isBlocked = false) ∧
    (now + q.window < Clock.horizon → ∃ h, (hit now key q cs).1 = .ok h)

/-- From a time on the counter lets any hit through whose quota admits some, whatever has happened
to the counters since an earlier time, as long as no hit on this one has come after its block. -/
def ReadmitsFrom (cs : Counters) (key : String) (since blockEnd start : Nat) : Prop :=
  ∀ es : List Event, es.Pairwise (fun a b => a.time ≤ b.time) → (∀ e ∈ es, since ≤ e.time) →
    (∀ t ∈ es.filterMap (Event.hitTime? key), t < blockEnd) →
    ∀ now, start ≤ now → (∀ e ∈ es, e.time ≤ now) → ∀ q : Quota, 1 ≤ q.limit →
      (cs.run es).Admits now key q

/-- A blocked counter readmits as its block lapses, and not before. -/
theorem readmitsFrom_iff (ordered : cs.Ordered) (found : cs.get? key = some c)
    (block : c.blockedUntil = some u) {start : Nat} (le : now ≤ start) :
    cs.ReadmitsFrom key now u start ↔ u ≤ start := by
  constructor
  · intro readmits
    obtain ⟨free, -⟩ := readmits [] .nil (List.forall_mem_nil _) (List.forall_mem_nil _) start
      (Nat.le_refl _) (List.forall_mem_nil _) ⟨1, 0, none⟩ (Nat.le_refl 1)
    by_contra early
    have refused := free _ (hit_of_blocked block found (Nat.not_le.mp early) ⟨1, 0, none⟩).1
    rw [Counter.found, block] at refused
    cases refused
  · intro lapsed es sorted since early last reached past q some_admitted
    have rests : (cs.run es).Rests key c last :=
      Rests.run block (.inl found) ordered sorted since early (Nat.le_trans le reached) past
    have opening : Counter.isOpening last ((cs.run es).get? key) = true :=
      rests.isOpening ((isLapsed_iff_of_blocked block).mpr (Nat.le_trans lapsed reached))
    by_cases fits : last + q.window < Clock.horizon
    · obtain ⟨h, after, struck, free⟩ := hit_of_opening opening fits (by omega)
      rw [Admits, struck]
      exact ⟨fun d same => by cases same; exact free, fun _ => ⟨h, rfl⟩⟩
    · rw [Admits, hit_of_late opening fits]
      constructor
      · intro h same
        cases same
      · intro ends
        exact absurd ends fits

end Counters

namespace Throttle

/-- A request is refused by the last counter that is hit for it. The store keeps an invariant until
then. -/
theorem struck_of_refused {σ : Type} {store : CounterStore σ} {P : σ → Prop}
    (kept : ∀ key q s, P s → P (store.hit key q s).2) {cs : List Charge} {s u : σ} {r : Response}
    (start : P s) (came : charge store cs s = (.ok (.refused r), u)) :
    ∃ c ∈ cs, ∃ t h, P t ∧ store.hit c.key c.bucket.quota t = (.ok (.ok h), u) ∧
      h.isBlocked = true ∧ r = refusal c.bucket h := by
  induction cs generalizing s with
  | nil => cases came
  | cons c cs ih =>
    have next := kept c.key c.bucket.quota s start
    have later {t : σ} (start : P t) (came : charge store cs t = (.ok (.refused r), u)) :
        ∃ d ∈ c :: cs, ∃ t h, P t ∧ store.hit d.key d.bucket.quota t = (.ok (.ok h), u) ∧
          h.isBlocked = true ∧ r = refusal d.bucket h := by
      obtain ⟨d, mem, found⟩ := ih start came
      exact ⟨d, List.mem_cons_of_mem _ mem, found⟩
    rcases struck : store.hit c.key c.bucket.quota s with ⟨e | f | h, t⟩
    · rw [charge_of_late struck] at came
      cases came
    · rw [charge_of_fault struck] at came
      rw [struck] at next
      exact later next came
    · rw [struck] at next
      cases blocked : h.isBlocked with
      | true =>
        rw [charge_of_blocked struck blocked] at came
        cases came
        exact ⟨c, List.mem_cons_self, s, h, start, struck, blocked, rfl⟩
      | false =>
        rw [charge_of_free struck blocked, Run.map_apply] at came
        rcases others : charge store cs t with ⟨e | told | r', v⟩ <;> rw [others] at came <;>
          cases came
        exact later next others

theorem memory_hit_at (now : Nat) (key : String) (q : Quota) (cs : Counters) :
    (CounterStore.memory (fun _ => now) .whole).hit key q cs =
      ((Counters.hit now key q cs).1.map .ok, (Counters.hit now key q cs).2) :=
  memory_hit (fun _ => now) .whole key q cs

/-- A refused request is told the whole seconds of the block that it has found. They suffice exactly
where the rest of the block beyond whole seconds is nothing or has a whole millisecond: from their
end on the counter is open then, whatever its history. With one more millisecond they always
suffice. -/
theorem retry_after_suffices_iff (past : List Counters.Event) {charges : List Charge} {now : Nat}
    {r : Response} {after : Counters}
    (refused : charge (.memory (fun _ => now) .whole) charges (Counters.empty.run past) =
      (.ok (.refused r), after)) :
    ∃ c ∈ charges, ∃ u, (after.get? c.key).bind Counter.blockedUntil = some u ∧
      r.status = .tooManyRequests ∧
      r.headers.entries = [("Content-Type", "application/json"),
        ("Retry-After" ++ (if c.bucket.name = "default" then "" else "-" ++ c.bucket.name),
          toString (Clock.wholeSeconds (u - now)))] ∧
      (after.ReadmitsFrom c.key now u (now + Clock.wholeSeconds (u - now) * Clock.second) ↔
        (u - now) % Clock.second = 0 ∨ Clock.millisecond ≤ (u - now) % Clock.second) ∧
      after.ReadmitsFrom c.key now u
        (now + Clock.wholeSeconds (u - now) * Clock.second + Clock.millisecond) := by
  have kept (key : String) (q : Quota) (cs : Counters) (ordered : cs.Ordered) :
      ((CounterStore.memory (fun _ => now) .whole).hit key q cs).2.Ordered := by
    rw [memory_hit_at]
    exact ordered.hit now key q
  obtain ⟨c, mem, cs, h, ordered, struck, blocked, rfl⟩ :=
    struck_of_refused kept (Counters.ordered_empty.run past) refused
  have hit : Counters.hit now c.key c.bucket.quota cs = (.ok h, after) := by
    rw [memory_hit_at] at struck
    rcases outcome : Counters.hit now c.key c.bucket.quota cs with ⟨e | d, t⟩ <;>
      rw [outcome] at struck <;> cases struck
    rfl
  obtain ⟨d, u, found, block, told⟩ := Counters.block_of_hit hit blocked
  have ordered : after.Ordered := by
    have later := ordered.hit now c.key c.bucket.quota
    rwa [hit] at later
  refine ⟨c, mem, u, by rw [found, Option.bind_some, block], rfl, ?_, ?_, ?_⟩
  · rw [← told, ← Bucket.suffix_eq]
    rfl
  · rw [Counters.readmitsFrom_iff ordered found block (Nat.le_add_right _ _),
      ← Clock.le_wholeSeconds_iff]
    omega
  · rw [Counters.readmitsFrom_iff ordered found block (by omega)]
    have enough := Clock.lt_wholeSeconds_add (u - now)
    omega

section Case

/-- One request in a second and half a millisecond. -/
def overASecond : ThrottlePlan where
  default := ⟨Bucket.defaultName, ⟨1, Clock.second + Clock.millisecond / 2, none⟩⟩

/-- A login under the plan, in front of a handler that agrees to everything. -/
def loginAt (now : Nat) : Run Counters Response :=
  Stage.throttle overASecond (.memory (fun _ => now) .whole) (.ofVerifier Token.disabled)
    (fun _ => pure (Response.ofText .ok "")) (.ofRequest login)

/-- The second login is told to come again after one second and is refused when it does. -/
theorem one_second_does_not_suffice :
    let first := loginAt 0 .empty
    let second := loginAt 0 first.2
    let third := loginAt (1 * Clock.second) second.2
    let u := Clock.second + Clock.millisecond / 2
    let said (r : Response) := (r.status, r.headers.get? "Retry-After")
    first.1.map said = .ok (.ok, none) ∧
    second.1.map said = .ok (.tooManyRequests, some "1") ∧
    (second.2.get? "default:ip:5.5.5.5").bind Counter.blockedUntil = some u ∧
    ¬ second.2.ReadmitsFrom "default:ip:5.5.5.5" 0 u (1 * Clock.second) ∧
    third.1.map said = .ok (.tooManyRequests, some "0") := by
  intro first second third u said
  have left : second.2 = ⟨[("default:ip:5.5.5.5", ⟨2, u, some u⟩)]⟩ := by decide +kernel
  have ordered : second.2.Ordered := by
    rw [left]
    exact List.pairwise_singleton _ _
  have found : second.2.get? "default:ip:5.5.5.5" = some ⟨2, u, some u⟩ := by
    rw [left]
    rfl
  refine ⟨by decide +kernel, by decide +kernel, by rw [found]; rfl, ?_, by decide +kernel⟩
  rw [Counters.readmitsFrom_iff ordered found rfl (Nat.zero_le _)]
  decide +kernel

/-- A minute's block, found a second and a millisecond before its end: two seconds suffice. -/
theorem two_seconds_suffice :
    let c : Charge := ⟨⟨Bucket.defaultName, ⟨1, 60 * Clock.second, none⟩⟩, "default:ip:5.5.5.5"⟩
    let past : List Counters.Event := [.hit 0 c.key c.bucket.quota, .hit 1 c.key c.bucket.quota]
    let now := 59 * Clock.second - Clock.millisecond
    let blocked : Counters := ⟨[(c.key, ⟨2, 60 * Clock.second, some (60 * Clock.second)⟩)]⟩
    let r := refusal c.bucket ⟨2, 1001000000, true, 1001000000⟩
    charge (.memory (fun _ => now) .whole) [c] (Counters.empty.run past) =
      (.ok (.refused r), blocked) ∧
    r.headers.get? "Retry-After" = some "2" ∧
    blocked.ReadmitsFrom c.key now (60 * Clock.second) (now + 2 * Clock.second) := by
  intro c past now blocked r
  have refused : charge (.memory (fun _ => now) .whole) [c] (Counters.empty.run past) =
      (.ok (.refused r), blocked) := by
    refine charge_of_blocked ?_ rfl []
    decide +kernel
  obtain ⟨d, mem, u, block, -, -, suffice, -⟩ := retry_after_suffices_iff past refused
  obtain rfl : d = c := List.mem_singleton.mp mem
  have lasts : (blocked.get? c.key).bind Counter.blockedUntil = some (60 * Clock.second) := by
    decide +kernel
  obtain rfl : 60 * Clock.second = u := Option.some.inj (lasts.symm.trans block)
  have enough : (60 * Clock.second - now) % Clock.second = 0 ∨
      Clock.millisecond ≤ (60 * Clock.second - now) % Clock.second := by decide +kernel
  have two : Clock.wholeSeconds (60 * Clock.second - now) = 2 := by decide +kernel
  rw [two] at suffice
  exact ⟨refused, by decide +kernel, suffice.mpr enough⟩

end Case

end Throttle

end Turnstile
